import CellScript.Token.Scan
import CellScript.Tree

namespace CellScript

/-!
# Building trees

Brackets group tokens into blocks.  Either opening bracket may be closed by
either closing one.  The builder holds the members of the innermost open block
and, for each open block, its opening bracket with the members that stand before
it in the block around it.
-/

/-- The state of building between two tokens. -/
structure Builder where
  /-- The members of the innermost open block, the newest first. -/
  members : List Node
  /-- The open blocks, innermost first: opening bracket and earlier siblings. -/
  enclosing : List (Token × List Node)
  deriving Repr

namespace Builder

/-- No members, no open block. -/
def start : Builder :=
  { members := [], enclosing := [] }

/-- Add a member to the innermost open block. -/
def add (builder : Builder) (node : Node) : Builder :=
  { builder with members := node :: builder.members }

/-- Open a block. -/
def openBlock (builder : Builder) (bracket : Token) : Builder :=
  { members := [], enclosing := (bracket, builder.members) :: builder.enclosing }

/-- Close the innermost open block, unless none is open. -/
def closeBlock (builder : Builder) (bracket : Token) : Except Fault Builder :=
  match builder.enclosing with
  | [] =>
      .error (.structuralMismatch bracket.position (bracket.lexeme.toList.headD ')'))
  | (_, siblings) :: enclosing =>
      .ok { members := Node.block builder.members.reverse :: siblings, enclosing }

/-- Take the next token. -/
def step (builder : Builder) (token : Token) : Except Fault Builder :=
  if token.isOpening then
    .ok (builder.openBlock token)
  else if token.isClosing then
    builder.closeBlock token
  else
    .ok (builder.add (Node.leaf (Leaf.ofLexeme token.lexeme)))

/-- The members built when the tokens are over, unless a block is still open. -/
def finish (builder : Builder) : Except Fault (List Node) :=
  match builder.enclosing with
  | [] => .ok builder.members.reverse
  | (bracket, _) :: _ => .error (.unclosedBlock bracket.position bracket.lexeme)

end Builder

namespace Node

/-- The members of the block that tokens make. -/
def ofTokens (tokens : List Token) : Except Fault (List Node) := do
  let builder ← tokens.foldlM Builder.step Builder.start
  builder.finish

/-- The members of the block that source text makes. -/
def ofSource (source : String) : Except Fault (List Node) := do
  let tokens ← Token.ofSource source
  ofTokens tokens

end Node

end CellScript
