import CellScript.Heap.Display

namespace CellScript

/-!
# Snapshots

A snapshot is a copy of a value that needs no heap.  Which cells were one and
the same is lost, and so is the body of a function.  A list that lies too deep is
taken as empty, so that a list containing itself has a snapshot too.
-/

/-- A value without cells. -/
inductive Snapshot where
  | none
  | boolean (value : Bool)
  | integer (value : Int64)
  | text (content : String)
  | list (items : List Snapshot)
  | function (parameters : List String)
  deriving Repr

/-- The number of lists that a snapshot keeps inside each other before it cuts them off. -/
def Snapshot.depthLimit : Nat := 64

namespace Value

/-- The snapshot of a value, opening at most `room` lists inside each other. -/
def snapshotWithin (heap : Heap) : (room : Nat) → Value → Snapshot
  | _, .none => .none
  | _, .boolean value => .boolean value
  | _, .integer value => .integer value
  | _, .text content => .text content
  | _, .function parameters _ => .function parameters
  | 0, .list _ => .list []
  | room + 1, .list slots =>
      .list (slots.map fun slot => snapshotWithin heap room (heap.read slot))

/-- The snapshot of a value. -/
def snapshot (heap : Heap) (value : Value) : Snapshot :=
  snapshotWithin heap Snapshot.depthLimit value

end Value

end CellScript
