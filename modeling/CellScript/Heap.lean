import CellScript.Value

namespace CellScript

/-!
# Heaps

A heap maps cells to values.  It only grows: a new value gets the next cell, and
no cell is ever given back.  A cell that a heap does not have reads as absent and
cannot be written.
-/

/-- The values of all cells, in the order in which the cells were made. -/
structure Heap where
  values : Array Value
  deriving Repr

namespace Heap

/-- The heap without cells. -/
def empty : Heap :=
  { values := #[] }

/-- The number of cells. -/
def size (heap : Heap) : Nat :=
  heap.values.size

/-- The value in a cell. -/
def read (heap : Heap) (cell : Cell) : Value :=
  heap.values[cell.index]?.getD .none

/-- Make a cell for a value. -/
def allocate (heap : Heap) (value : Value) : Cell × Heap :=
  ({ index := heap.values.size }, { values := heap.values.push value })

/-- Overwrite the value in a cell. -/
def write (heap : Heap) (cell : Cell) (value : Value) : Heap :=
  { values := heap.values.setIfInBounds cell.index value }

/-- Copy the value of one cell into another. -/
def assign (heap : Heap) (target source : Cell) : Heap :=
  heap.write target (heap.read source)

/-- The slot of a list at a position given by an integer, when it has one. -/
def slot? (heap : Heap) (owner index : Cell) : Option Cell :=
  match heap.read owner, (heap.read index).position? with
  | .list slots, some position => slots[position]?
  | _, _ => none

/-- The character of a text at a position given by an integer, when it has one. -/
def character? (heap : Heap) (owner index : Cell) : Option Char :=
  match heap.read owner, (heap.read index).position? with
  | .text content, some position => content.toList[position]?
  | _, _ => none

/-- Making a cell adds one cell. -/
@[simp]
theorem size_allocate
    (heap : Heap)
    (value : Value) :
    (heap.allocate value).2.size = heap.size + 1 := by
  simp [allocate, size]

/-- Writing keeps the number of cells. -/
@[simp]
theorem size_write
    (heap : Heap)
    (cell : Cell)
    (value : Value) :
    (heap.write cell value).size = heap.size := by
  simp [write, size]

/-- A new cell holds the value it was made for. -/
@[simp]
theorem read_allocate_self
    (heap : Heap)
    (value : Value) :
    (heap.allocate value).2.read (heap.allocate value).1 = value := by
  simp [allocate, read]

/-- Making a cell changes no other cell. -/
theorem read_allocate_of_lt
    {heap : Heap}
    {cell : Cell}
    (value : Value)
    (within : cell.index < heap.size) :
    (heap.allocate value).2.read cell = heap.read cell := by
  simp only [size] at within
  have differ : cell.index ≠ heap.values.size := Nat.ne_of_lt within
  simp [allocate, read, Array.getElem?_push, differ]

/-- A written cell holds what was written. -/
theorem read_write_self
    {heap : Heap}
    {cell : Cell}
    (value : Value)
    (within : cell.index < heap.size) :
    (heap.write cell value).read cell = value := by
  simp only [size] at within
  simp [write, read, within]

/-- Writing a cell changes no other cell. -/
theorem read_write_of_ne
    {heap : Heap}
    {written cell : Cell}
    (value : Value)
    (other : cell ≠ written) :
    (heap.write written value).read cell = heap.read cell := by
  have differ : written.index ≠ cell.index := by
    intro same
    exact other (by cases cell; cases written; simp_all)
  simp [write, read, differ]

end Heap

end CellScript
