import CellScript.Evaluation.Operand

namespace CellScript.Evaluation

/-!
# Assignment

An assignment overwrites a cell: the one a name means, or the slot of a list.  An
index into anything else names a position in the text that a variable holds, and
assigning there splices the text.  A return signal raised inside an index form
that is to be assigned does not leave the assignment; its value is used.
-/

/-- What an assignment writes to. -/
inductive Target where
  /-- The cell that a name means. -/
  | name (name : String)
  /-- The slot of a list. -/
  | slot (cell : Cell)
  /-- A position in the text that a variable holds. -/
  | position (variableName : String) (index : Nat)
  deriving Repr, DecidableEq

/-- The name that a node gives as the target of a declaration or an assignment. -/
def targetName (node : Node) : Action String :=
  match node.word? with
  | some name => return name
  | none => Action.fail (.invalidAssignmentTarget node.display)

/-- The owner and the index of an index form with exactly these two operands. -/
def indexParts? : Node → Option (Node × Node)
  | .block [.leaf (.word word), owner, index] =>
      if word = "index" then some (owner, index) else none
  | _ => none

/-- The target that an owner and an index resolve to, when there is one. -/
def indexTarget? (heap : Heap) (ownerNode : Node) (owner index : Cell) : Option Target :=
  match heap.slot? owner index with
  | some cell => some (.slot cell)
  | none => do
      let variableName ← ownerNode.word?
      let position ← (heap.read index).position?
      return .position variableName position

/-- The target that a node resolves to. -/
def resolveTarget (evaluate : Evaluator) (node : Node) : Action Target := do
  match indexParts? node with
  | some (ownerNode, indexNode) =>
      let owner ← Action.catchReturn (evaluate ownerNode)
      let index ← Action.catchReturn (evaluate indexNode)
      match ← Action.look fun machine => indexTarget? machine.heap ownerNode owner index with
      | some target => return target
      | none => Action.fail (.invalidAssignmentTarget node.display)
  | none => return .name (← targetName node)

/-- The cell that a name means; a name bound nowhere is a fault. -/
def lookupDeclared (name : String) : Action Cell := do
  match ← Action.lookup? name with
  | some cell => return cell
  | none => Action.fail (.undefinedVariable name)

/-- The number of characters that a value replaces where it is spliced into a text. -/
def replacedBy : Value → Nat
  | .text content => content.toList.length
  | _ => 0

/-- The value that results from splicing a value into another one; only texts change. -/
def spliced (heap : Heap) (owner : Value) (position : Nat) (value : Value) : Value :=
  match owner with
  | .text content =>
      .text (String.ofList
        (Text.splice content.toList position (replacedBy value)
          (value.render heap).toList))
  | other => other

/-- Splice the value of one cell into the text in another. -/
def spliceInto (owner : Cell) (position : Nat) (source : Cell) : Action Unit := do
  let value ← Action.look fun machine =>
    spliced machine.heap (machine.heap.read owner) position (machine.heap.read source)
  Action.write owner value

/-- Assign the value of an operand, evaluated after the target is known, to a target. -/
def assignTo (evaluate : Evaluator) (operands : List Node) : Target → Action Unit
  | .name name => do
      let cell ← lookupDeclared name
      let value ← operand evaluate operands 1
      Action.assign cell value
  | .slot cell => do
      let value ← operand evaluate operands 1
      Action.assign cell value
  | .position variableName index => do
      let owner ← lookupDeclared variableName
      let value ← operand evaluate operands 1
      spliceInto owner index value

/-- Evaluate an assignment. -/
def assignment (evaluate : Evaluator) (operands : List Node) : Action Cell := do
  match operands.head? with
  | none => Action.fail (.invalidAssignmentTarget "(set)")
  | some node =>
      let target ← resolveTarget evaluate node
      assignTo evaluate operands target
      Action.nothing

/-- Evaluate a declaration, which binds a name to the very cell of its operand. -/
def declaration (evaluate : Evaluator) (operands : List Node) : Action Cell := do
  match operands.head? with
  | none => Action.fail (.invalidAssignmentTarget "(let)")
  | some node =>
      let name ← targetName node
      let cell ← operand evaluate operands 1
      Action.declare name cell
      Action.nothing

end CellScript.Evaluation
