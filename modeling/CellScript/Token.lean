import CellScript.Source

namespace CellScript

/-!
# Tokens

Source text is cut into words, quoted texts and brackets.  A token keeps its
exact characters, the quotation marks of a quoted text among them, and the place
of its first character.
-/

/-- The kinds of token. -/
inductive Token.Kind where
  /-- A name, an operator, a keyword or a number. -/
  | word
  /-- A text in quotation marks, with whatever word it was glued to. -/
  | text
  /-- One of the four brackets. -/
  | bracket
  deriving Repr, DecidableEq

/-- A piece of source text. -/
structure Token where
  kind : Token.Kind
  lexeme : String
  position : Position
  deriving Repr, DecidableEq

namespace Token

/-- The name of a kind of token. -/
def Kind.name : Kind → String
  | .word => "Word"
  | .text => "String"
  | .bracket => "Bracket"

/-- The kind of token with a name. -/
def Kind.ofName? : String → Option Kind
  | "Word" => some .word
  | "String" => some .text
  | "Bracket" => some .bracket
  | _ => none

/-- The characters that are brackets. -/
def isBracket (character : Char) : Bool :=
  character = '(' || character = ')' || character = '{' || character = '}'

/-- A bracket that opens a block. -/
def isOpening (token : Token) : Bool :=
  token.kind = .bracket && (token.lexeme = "(" || token.lexeme = "\x7b")

/-- A bracket that closes a block. -/
def isClosing (token : Token) : Bool :=
  token.kind = .bracket && (token.lexeme = ")" || token.lexeme = "\x7d")

/-- A kind is found by its name. -/
@[simp]
theorem Kind.ofName?_name
    (kind : Kind) :
    Kind.ofName? kind.name = some kind := by
  cases kind <;> rfl

end Token

end CellScript
