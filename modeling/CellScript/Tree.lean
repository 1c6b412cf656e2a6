import CellScript.Numeral.Decimal

namespace CellScript

/-!
# Syntax trees

A script is a tree whose leaves are words, texts and numbers and whose inner
nodes are blocks.  A block all of whose members are blocks is a sequence, to be
run member by member; any other block is a form, with a head and operands.
-/

/-- A leaf of a tree. -/
inductive Leaf where
  /-- A name, an operator or a keyword. -/
  | word (name : String)
  /-- A text, without its quotation marks. -/
  | text (content : String)
  /-- An integer. -/
  | number (value : Int64)
  deriving Repr, DecidableEq

/-- A node of a tree. -/
inductive Node where
  | leaf (value : Leaf)
  | block (members : List Node)
  deriving Repr

namespace Leaf

/-- The content of a leaf, texts without quotation marks. -/
def content : Leaf → String
  | .word name => name
  | .text content => content
  | .number value => String.ofList (Decimal.ofInt value.toInt)

/-- The source form of a leaf; quotation marks inside a text stay as they are. -/
def characters : Leaf → List Char
  | .word name => name.toList
  | .text content => '"' :: (content.toList ++ ['"'])
  | .number value => Decimal.ofInt value.toInt

/-- The name of a word. -/
def word? : Leaf → Option String
  | .word name => some name
  | _ => none

/--
The leaf that a lexeme stands for: a text when it starts with a quotation mark,
a number when it reads as a 64-bit integer, and a word otherwise.
-/
def ofLexeme (lexeme : String) : Leaf :=
  match lexeme.toList with
  | '"' :: rest => .text (String.ofList rest.dropLast)
  | characters =>
      match Decimal.readInt64? characters with
      | some value => .number value
      | none => .word lexeme

end Leaf

namespace Node

mutual

/-- Two nodes are equal when they are the same leaf or blocks of equal members. -/
def decideEq : (left right : Node) → Decidable (left = right)
  | .leaf left, .leaf right =>
      if same : left = right then
        .isTrue (congrArg Node.leaf same)
      else
        .isFalse fun equal => same (Node.leaf.inj equal)
  | .block left, .block right =>
      match decideEqAll left right with
      | .isTrue same => .isTrue (congrArg Node.block same)
      | .isFalse differ => .isFalse fun equal => differ (Node.block.inj equal)
  | .leaf _, .block _ => .isFalse nofun
  | .block _, .leaf _ => .isFalse nofun

/-- Lists of members are equal when their members are, one by one. -/
def decideEqAll : (left right : List Node) → Decidable (left = right)
  | [], [] => .isTrue rfl
  | left :: lefts, right :: rights =>
      match decideEq left right, decideEqAll lefts rights with
      | .isTrue same, .isTrue sameRest => .isTrue (congr (congrArg List.cons same) sameRest)
      | .isFalse differ, _ => .isFalse fun equal => differ (List.cons.inj equal).1
      | _, .isFalse differ => .isFalse fun equal => differ (List.cons.inj equal).2
  | [], _ :: _ => .isFalse nofun
  | _ :: _, [] => .isFalse nofun

end

instance : DecidableEq Node := decideEq

/-- A node that is a block. -/
def isBlock : Node → Bool
  | .block _ => true
  | .leaf _ => false

/-- The name of a node that is a word. -/
def word? : Node → Option String
  | .leaf value => value.word?
  | .block _ => none

/-- Members make a sequence when all of them are blocks; no members make one too. -/
def isSequence (members : List Node) : Bool :=
  members.all isBlock

mutual

/-- The source form of a node, blocks in round brackets. -/
def characters : Node → List Char
  | .leaf value => value.characters
  | .block members => '(' :: (spaced members ++ [')'])

/-- The source forms of members, with one space between neighbours. -/
def spaced : List Node → List Char
  | [] => []
  | [member] => characters member
  | member :: rest => characters member ++ ' ' :: spaced rest

end

/-- The source form of a node, as text. -/
def display (node : Node) : String :=
  String.ofList (characters node)

mutual

/-- A node and all nodes below it, every node before its members. -/
def preorder : Node → List Node
  | .leaf value => [.leaf value]
  | .block members => .block members :: preorderAll members

/-- The nodes of all members, member by member. -/
def preorderAll : List Node → List Node
  | [] => []
  | member :: rest => preorder member ++ preorderAll rest

end

/-- The nodes of members are the nodes of each of them. -/
theorem mem_preorderAll
    {node : Node}
    {members : List Node} :
    node ∈ preorderAll members ↔ ∃ member ∈ members, node ∈ preorder member := by
  induction members with
  | nil => simp [preorderAll]
  | cons member rest inductionHypothesis => simp [preorderAll, inductionHypothesis]

/-- No members make a sequence. -/
@[simp]
theorem isSequence_nil : isSequence [] = true := rfl

/-- Members make a sequence when the first is a block and the others make one. -/
@[simp]
theorem isSequence_cons
    (member : Node)
    (rest : List Node) :
    isSequence (member :: rest) = (member.isBlock && isSequence rest) := by
  simp [isSequence]

end Node

end CellScript
