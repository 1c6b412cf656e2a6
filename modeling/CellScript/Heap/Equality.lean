import CellScript.Heap

namespace CellScript.Heap

/-!
# Structural equality

Two cells are structurally equal when they are one cell or hold equal values,
lists being equal when they have equally many slots with structurally equal
cells.  Comparing cells of which neither the one nor the other unfolds to a
finite tree need not come to an end, so comparing takes fuel and may stay
without an answer.
-/

/-- Compare lists slot by slot, up to the first difference. -/
def compareSlots? (compare? : Cell → Cell → Option Bool) :
    List Cell → List Cell → Option Bool
  | [], [] => some true
  | left :: lefts, right :: rights =>
      match compare? left right with
      | some true => compareSlots? compare? lefts rights
      | other => other
  | _, _ => some false

/-- Compare two cells, opening at most `fuel` lists inside each other. -/
def equal? (heap : Heap) : (fuel : Nat) → Cell → Cell → Option Bool
  | 0, _, _ => none
  | fuel + 1, left, right =>
      if left = right then
        some true
      else
        match heap.read left, heap.read right with
        | .list lefts, .list rights =>
            if lefts.length = rights.length then
              compareSlots? (equal? heap fuel) lefts rights
            else
              some false
        | leftValue, rightValue => some (leftValue = rightValue)

end CellScript.Heap
