import CellScript.Machine

namespace CellScript.Evaluation

/-!
# Operands

The parts of a form are evaluated by an evaluator handed in from outside.  A part
that is left early leaves the form as well, so the parts behind it are not
evaluated.  A part that a form lacks counts as the absent value.
-/

/-- An evaluator of nodes. -/
abbrev Evaluator := Node → Action Cell

/-- The value of a node that may be lacking. -/
def optional (evaluate : Evaluator) : Option Node → Action Cell
  | some node => evaluate node
  | none => Action.nothing

/-- The value of the operand at a position. -/
def operand (evaluate : Evaluator) (operands : List Node) (position : Nat) : Action Cell :=
  optional evaluate operands[position]?

/-- The values of two operands, the first one before the second. -/
def operandPair (evaluate : Evaluator) (operands : List Node) : Action (Cell × Cell) := do
  let first ← operand evaluate operands 0
  let second ← operand evaluate operands 1
  return (first, second)

/-- The values of all nodes. -/
def all (evaluate : Evaluator) : List Node → Action (List Cell)
  | [] => return []
  | node :: rest => do
      let cell ← evaluate node
      let cells ← all evaluate rest
      return cell :: cells

/-- The printed texts of all nodes, each taken right after its node is evaluated. -/
def allRendered (evaluate : Evaluator) : List Node → Action (List String)
  | [] => return []
  | node :: rest => do
      let cell ← evaluate node
      let text ← Action.look fun machine =>
        (machine.heap.read cell).render machine.heap
      let texts ← allRendered evaluate rest
      return text :: texts

/-- Evaluate all nodes for what they do. -/
def allInOrder (evaluate : Evaluator) : List Node → Action Unit
  | [] => return ()
  | node :: rest => do
      let _ ← evaluate node
      allInOrder evaluate rest

/-- The value of the last node, or of an earlier cell when there are no nodes. -/
def lastOf (evaluate : Evaluator) (last : Cell) : List Node → Action Cell
  | [] => return last
  | node :: rest => do
      let cell ← evaluate node
      lastOf evaluate cell rest

/-- Evaluate a sequence in a frame of its own; its value is absent. -/
def sequence (evaluate : Evaluator) (members : List Node) : Action Cell :=
  Action.inFrame do
    allInOrder evaluate members
    Action.nothing

/-- Pair parameters with the values of operands; operands in excess are not evaluated. -/
def actuals (evaluate : Evaluator) :
    (parameters : List String) → (operands : List Node) → Action (List (String × Cell))
  | [], _ => return []
  | parameter :: parameters, operands => do
      let cell ← optional evaluate operands.head?
      let bindings ← actuals evaluate parameters operands.tail
      return (parameter, cell) :: bindings

/--
Call a function: its operands are evaluated where it is called, its body in a new
frame that binds the parameters.  A return signal ends here.
-/
def call
    (evaluate : Evaluator)
    (parameters : List String)
    (body : Node)
    (operands : List Node) :
    Action Cell := do
  let bindings ← actuals evaluate parameters operands
  Action.inFrame do
    Action.declareAll bindings
    Action.catchReturn (evaluate body)

end CellScript.Evaluation
