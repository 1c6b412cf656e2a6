import CellScript.Heap

namespace CellScript

/-!
# Shapes

The shape of a list says which of its slots are one and the same cell.  Slots are
walked from left to right and depth first, and every cell gets a number when it
is met for the first time.  A list is opened only when its cell is met for the
first time, so the walk ends even where lists contain themselves.
-/

/-- A slot in the shape of a list. -/
inductive Slot where
  /-- A cell, by its number. -/
  | cell (number : Nat)
  /-- A list met for the first time, with its slots. -/
  | opened (number : Nat) (slots : List Slot)
  deriving Repr

namespace Heap

/-- Walk slots one after the other, handing on the cells met so far. -/
def walkSlots
    (walk : List Cell → Cell → Slot × List Cell) :
    List Cell → List Cell → List Slot × List Cell
  | met, [] => ([], met)
  | met, slot :: rest =>
      let (shape, met) := walk met slot
      let (shapes, met) := walkSlots walk met rest
      (shape :: shapes, met)

/-- The shape of a slot after the cells met so far, which are in order of their numbers. -/
def slotShape (heap : Heap) : (room : Nat) → List Cell → Cell → Slot × List Cell
  | room, met, slot =>
      match met.idxOf? slot with
      | some number => (.cell number, met)
      | none =>
          let number := met.length
          let met := met ++ [slot]
          match room, heap.read slot with
          | room + 1, .list slots =>
              let (shapes, met) := walkSlots (slotShape heap room) met slots
              (.opened number shapes, met)
          | _, _ => (.cell number, met)

/--
The shapes of the slots of a list.  No more lists can be open inside each other
than there are cells, so that much room is enough.
-/
def shape (heap : Heap) (slots : List Cell) : List Slot :=
  (walkSlots (slotShape heap (heap.size + 1)) [] slots).1

end Heap

end CellScript
