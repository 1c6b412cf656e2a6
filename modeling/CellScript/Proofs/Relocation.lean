import CellScript.Evaluation.Assignment
import CellScript.Operator
import CellScript.Snapshot

namespace CellScript

/-!
# Relocation

A heap can be laid on top of an earlier one, whose cells come first.  Every cell
of the upper heap then moves up by as many places as the earlier heap has cells,
wherever that cell occurs: in a slot, in a frame, in the outcome of a computation.
What is read, printed or computed from a value does not tell where its cells are.
-/

/-- Data in which cells may occur, to be moved up by a number of places. -/
class Relocatable (α : Type) where
  relocate : Nat → α → α
  /-- Data moved up by no places stays as it is. -/
  relocate_zero : ∀ data, relocate 0 data = data

export Relocatable (relocate relocate_zero)

attribute [simp] Relocatable.relocate_zero

/-! ## Data -/

/-- Data without cells stays as it is. -/
abbrev Relocatable.fixed {α : Type} : Relocatable α where
  relocate _ data := data
  relocate_zero _ := rfl

instance : Relocatable Unit := .fixed
instance : Relocatable Bool := .fixed
instance : Relocatable Char := .fixed
instance : Relocatable String := .fixed

instance : Relocatable Cell where
  relocate offset cell := { index := offset + cell.index }
  relocate_zero cell := by simp

section

variable {α β : Type} [Relocatable α] [Relocatable β]

instance : Relocatable (List α) where
  relocate offset items := items.map (relocate offset)
  relocate_zero items := List.map_id'' relocate_zero items

instance : Relocatable (Option α) where
  relocate offset item? := item?.map (relocate offset)
  relocate_zero item? := by cases item? <;> simp

instance : Relocatable (α × β) where
  relocate offset pair := (relocate offset pair.1, relocate offset pair.2)
  relocate_zero pair := by simp

@[simp]
theorem relocate_nil
    (offset : Nat) :
    relocate offset ([] : List α) = [] := rfl

@[simp]
theorem relocate_cons
    (offset : Nat)
    (item : α)
    (rest : List α) :
    relocate offset (item :: rest) = relocate offset item :: relocate offset rest := rfl

/-- The items of a list are moved one by one. -/
theorem relocate_eq_map
    (offset : Nat)
    (items : List α) :
    relocate offset items = items.map (relocate offset) := rfl

@[simp]
theorem relocate_pair
    (offset : Nat)
    (first : α)
    (second : β) :
    relocate offset (first, second) = (relocate offset first, relocate offset second) := rfl

end

/-- Different cells stay different. -/
@[simp]
theorem relocate_cell_inj
    {offset : Nat}
    {left right : Cell} :
    relocate offset left = relocate offset right ↔ left = right := by
  cases left
  cases right
  simp [relocate]

instance : Relocatable Value where
  relocate offset
    | .list slots => .list (relocate offset slots)
    | other => other
  relocate_zero value := by cases value <;> simp

namespace Value

variable (offset : Nat)

@[simp]
theorem relocate_text
    (content : String) :
    relocate offset (Value.text content) = .text content := rfl

/-- The slots of a list move, and nothing else in a value does. -/
@[simp]
theorem relocate_list
    (slots : List Cell) :
    relocate offset (Value.list slots) = .list (relocate offset slots) := rfl

/-- Truth does not depend on where the slots of a list are. -/
@[simp]
theorem isTruthy_relocate
    (value : Value) :
    (relocate offset value).isTruthy = value.isTruthy := by
  cases value <;> rfl

@[simp]
theorem isFunction_relocate
    (value : Value) :
    (relocate offset value).isFunction = value.isFunction := by
  cases value <;> rfl

@[simp]
theorem isList_relocate
    (value : Value) :
    (relocate offset value).isList = value.isList := by
  cases value <;> rfl

@[simp]
theorem hasScalar_relocate
    (value : Value) :
    (relocate offset value).hasScalar = value.hasScalar := by
  cases value <;> rfl

/-- A value keeps its type. -/
@[simp]
theorem typeName_relocate
    (value : Value) :
    (relocate offset value).typeName = value.typeName := by
  cases value <;> rfl

/-- An integer is the same position wherever it is used. -/
@[simp]
theorem position?_relocate
    (value : Value) :
    (relocate offset value).position? = value.position? := by
  cases value <;> rfl

end Value

instance : Relocatable Evaluation.Target where
  relocate offset
    | .slot cell => .slot (relocate offset cell)
    | other => other
  relocate_zero target := by cases target <;> simp

instance : Relocatable Exit where
  relocate offset
    | .returning cell => .returning (relocate offset cell)
    | .failing fault => .failing fault
  relocate_zero exit := by cases exit <;> simp

instance : Relocatable Frame where
  relocate offset frame := { bindings := relocate offset frame.bindings }
  relocate_zero frame := by simp

instance : Relocatable FrameStack where
  relocate offset stack :=
    { top := relocate offset stack.top, below := relocate offset stack.below }
  relocate_zero stack := by simp

/-! ## Frames -/

namespace Frame

/-- A frame with moved cells binds the same names to the moved cells. -/
theorem lookup?_relocate
    (offset : Nat)
    (frame : Frame)
    (name : String) :
    (relocate offset frame).lookup? name = relocate offset (frame.lookup? name) := by
  obtain ⟨bindings⟩ := frame
  change (relocate offset bindings).lookup name = relocate offset (bindings.lookup name)
  induction bindings with
  | nil => rfl
  | cons binding rest inductionHypothesis =>
      obtain ⟨bound, cell⟩ := binding
      rw [relocate_cons, relocate_pair, List.lookup_cons, List.lookup_cons]
      change (match name == bound with | true => _ | false => _) = _
      cases name == bound with
      | true => rfl
      | false => exact inductionHypothesis

/-- Binding a name to a moved cell is moving the frame in which it is bound. -/
theorem bind_relocate
    (offset : Nat)
    (frame : Frame)
    (name : String)
    (cell : Cell) :
    (relocate offset frame).bind name (relocate offset cell) =
      relocate offset (frame.bind name cell) := by
  obtain ⟨bindings⟩ := frame
  refine congrArg Frame.mk ?_
  change put name _ (relocate offset bindings) = relocate offset (put name cell bindings)
  induction bindings with
  | nil => rfl
  | cons binding rest inductionHypothesis =>
      obtain ⟨bound, old⟩ := binding
      by_cases same : name = bound
      · simp [put, same, relocate]
      · simpa [put, same, relocate] using inductionHypothesis

end Frame

namespace FrameStack

variable (offset : Nat) (stack : FrameStack)

/-- A stack with moved cells gives names the moved cells. -/
theorem lookup?_relocate
    (name : String) :
    (relocate offset stack).lookup? name = relocate offset (stack.lookup? name) := by
  change (relocate offset stack.frames).findSome? _ =
    relocate offset (stack.frames.findSome? _)
  induction stack.frames with
  | nil => rfl
  | cons frame rest inductionHypothesis =>
      rw [relocate_cons, List.findSome?_cons, List.findSome?_cons, Frame.lookup?_relocate]
      cases frame.lookup? name with
      | none => exact inductionHypothesis
      | some cell => rfl

/-- Declaring a name with a moved cell is moving the stack in which it is declared. -/
theorem declare_relocate
    (name : String)
    (cell : Cell) :
    (relocate offset stack).declare name (relocate offset cell) =
      relocate offset (stack.declare name cell) := by
  have top := Frame.bind_relocate offset stack.top name cell
  exact congrArg (FrameStack.mk · (relocate offset stack.below)) top

/-- The frames that are left do not depend on what is in them. -/
theorem pop_relocate :
    (relocate offset stack).pop = relocate offset stack.pop := by
  obtain ⟨top, below⟩ := stack
  cases below <;> rfl

end FrameStack

/-! ## Heaps -/

namespace Heap

/-- The heap that has the cells of an earlier heap first and its own cells behind them. -/
def above (heap earlier : Heap) : Heap :=
  { values := earlier.values ++ heap.values.map (relocate earlier.size) }

/-- An empty earlier heap moves nothing. -/
@[simp]
theorem above_empty
    (heap : Heap) :
    heap.above empty = heap := by
  have same : (relocate 0 : Value → Value) = id := funext relocate_zero
  simp [above, empty, size, same]

/-- On top of an earlier heap, an empty one adds nothing to it. -/
@[simp]
theorem empty_above
    (earlier : Heap) :
    empty.above earlier = earlier := by
  simp [above, empty]

variable (heap earlier : Heap)

/-- The cells of the upper heap come after all earlier ones. -/
@[simp]
theorem size_above :
    (heap.above earlier).size = earlier.size + heap.size := by
  simp [above, size]

/-- A cell of the upper heap holds there, moved, what it holds on its own. -/
@[simp]
theorem read_above
    (cell : Cell) :
    (heap.above earlier).read (relocate earlier.size cell) =
      relocate earlier.size (heap.read cell) := by
  simp only [read, above, relocate, size]
  rw [Array.getElem?_append_right (Nat.le_add_right _ _), Nat.add_sub_cancel_left,
    Array.getElem?_map]
  cases heap.values[cell.index]? <;> rfl

/-- A new cell of the upper heap is a new cell of both. -/
theorem allocate_above
    (value : Value) :
    (heap.above earlier).allocate (relocate earlier.size value) =
      (relocate earlier.size (heap.allocate value).1,
        (heap.allocate value).2.above earlier) := by
  simp [allocate, above, relocate, size]

/-- Writing to the upper heap leaves the earlier one below it alone. -/
theorem write_above
    (cell : Cell)
    (value : Value) :
    (heap.above earlier).write (relocate earlier.size cell) (relocate earlier.size value) =
      (heap.write cell value).above earlier := by
  simp only [write, above, relocate, size]
  rw [Array.setIfInBounds_append_right (Nat.le_add_right _ _), Nat.add_sub_cancel_left,
    Array.map_setIfInBounds]

/-- Copying within the upper heap leaves the earlier one below it alone. -/
theorem assign_above
    (target source : Cell) :
    (heap.above earlier).assign (relocate earlier.size target) (relocate earlier.size source) =
      (heap.assign target source).above earlier := by
  rw [assign, read_above, write_above, assign]

/-- The slot at a position is the moved one. -/
theorem slot?_above
    (owner index : Cell) :
    (heap.above earlier).slot? (relocate earlier.size owner) (relocate earlier.size index) =
      relocate earlier.size (heap.slot? owner index) := by
  simp only [slot?, read_above, Value.position?_relocate]
  cases heap.read owner <;> cases (heap.read index).position? <;> simp [relocate]

/-- A character is found by its position, wherever the text is held. -/
theorem character?_above
    (owner index : Cell) :
    (heap.above earlier).character? (relocate earlier.size owner)
        (relocate earlier.size index) =
      relocate earlier.size (heap.character? owner index) := by
  simp only [character?, read_above, Value.position?_relocate]
  cases heap.read owner with
  | text content =>
      cases (heap.read index).position? with
      | none => rfl
      | some position => exact (congrFun Option.map_id content.toList[position]?).symm
  | none | boolean | integer | list | function => rfl

/-- Looking into slots comes to looking at the relocated values in them. -/
theorem map_read_above
    {β : Type}
    (look : Value → β)
    (slots : List Cell) :
    (relocate earlier.size slots).map (fun slot => look ((heap.above earlier).read slot)) =
      slots.map (fun slot => look (relocate earlier.size (heap.read slot))) := by
  simp [relocate_eq_map]

end Heap

/-! ## What can be seen of a value -/

namespace Value

variable (heap earlier : Heap)

/-- A displayed value shows the same lists to any depth. -/
theorem displayWithin_above
    (room : Nat)
    (value : Value) :
    displayWithin (heap.above earlier) room (relocate earlier.size value) =
      displayWithin heap room value := by
  induction room generalizing value with
  | zero => cases value <;> rfl
  | succ room inductionHypothesis =>
      cases value with
      | list slots =>
          have items := heap.map_read_above earlier (displayWithin (heap.above earlier) room) slots
          simp only [inductionHypothesis] at items
          simp only [relocate_list, displayWithin, items]
      | none | boolean | integer | text | function => rfl

/-- A joined value opens the same lists to any depth. -/
theorem joinWithin_above
    (room : Nat)
    (value : Value) :
    joinWithin (heap.above earlier) room (relocate earlier.size value) =
      joinWithin heap room value := by
  induction room generalizing value with
  | zero => cases value <;> rfl
  | succ room inductionHypothesis =>
      cases value with
      | list slots =>
          have items := heap.map_read_above earlier
            (fun item => if item.hasScalar then joinWithin (heap.above earlier) room item else "")
            slots
          simp only [hasScalar_relocate, inductionHypothesis] at items
          simp only [relocate_list, joinWithin, items]
      | none | boolean | integer | text | function => rfl

/-- A snapshot has no cells, so it does not tell where they were. -/
theorem snapshotWithin_above
    (room : Nat)
    (value : Value) :
    snapshotWithin (heap.above earlier) room (relocate earlier.size value) =
      snapshotWithin heap room value := by
  induction room generalizing value with
  | zero => cases value <;> rfl
  | succ room inductionHypothesis =>
      cases value with
      | list slots =>
          have items := heap.map_read_above earlier (snapshotWithin (heap.above earlier) room) slots
          simp only [inductionHypothesis] at items
          simp only [relocate_list, snapshotWithin, items]
      | none | boolean | integer | text | function => rfl

@[simp]
theorem display_above
    (value : Value) :
    display (heap.above earlier) (relocate earlier.size value) = display heap value :=
  displayWithin_above heap earlier depthLimit value

@[simp]
theorem join_above
    (value : Value) :
    join (heap.above earlier) (relocate earlier.size value) = join heap value :=
  joinWithin_above heap earlier depthLimit value

@[simp]
theorem snapshot_above
    (value : Value) :
    snapshot (heap.above earlier) (relocate earlier.size value) = snapshot heap value :=
  snapshotWithin_above heap earlier Snapshot.depthLimit value

/-- A value is printed in the same way on top of an earlier heap. -/
@[simp]
theorem render_above
    (value : Value) :
    render (heap.above earlier) (relocate earlier.size value) = render heap value := by
  cases value with
  | text content => rfl
  | none | boolean | integer | list | function => exact display_above heap earlier _

end Value

/-! ## Operators -/

/-- The scalar reading of a list is a text, in which no cells occur. -/
@[simp]
theorem Scalar.ofValue_above
    (heap earlier : Heap)
    (value : Value) :
    ofValue (heap.above earlier) (relocate earlier.size value) = ofValue heap value := by
  cases value with
  | list slots => exact congrArg Scalar.text (Value.join_above heap earlier (.list slots))
  | none | boolean | integer | text | function => rfl

/-- Whether two cells are one cell is not changed by relocating both of them. -/
theorem Comparison.holds_above
    (operator : Comparison)
    (heap earlier : Heap)
    (left right : Cell) :
    operator.holds (heap.above earlier) (relocate earlier.size left)
        (relocate earlier.size right) =
      operator.holds heap left right := by
  have equality :
      looselyEqual (heap.above earlier) (relocate earlier.size left)
          (relocate earlier.size right) =
        looselyEqual heap left right := by
    simp [looselyEqual]
  have order :
      order? (heap.above earlier) (relocate earlier.size left)
          (relocate earlier.size right) =
        order? heap left right := by
    simp [order?]
  unfold holds
  rw [equality, order]

/-- Arithmetic looks at scalars only. -/
theorem Arithmetic.apply_above
    (operator : Arithmetic)
    (heap earlier : Heap)
    (left right : Cell) :
    operator.apply (heap.above earlier) (relocate earlier.size left)
        (relocate earlier.size right) =
      operator.apply heap left right := by
  simp [apply]

/-- Arithmetic has no list as its result, so there is nothing to relocate in it. -/
theorem Arithmetic.relocate_onScalars
    (operator : Arithmetic)
    (offset : Nat)
    (left right : Scalar) :
    relocate offset (operator.onScalars left right) = operator.onScalars left right := by
  unfold onScalars
  split
  · rfl
  · split
    · split <;> rfl
    · rfl

/-! ## Assignment -/

namespace Evaluation

theorem replacedBy_relocate
    (offset : Nat)
    (value : Value) :
    replacedBy (relocate offset value) = replacedBy value := by
  cases value <;> rfl

/-- A splice replaces characters of a text by characters of a rendered value. -/
theorem spliced_above
    (heap earlier : Heap)
    (owner value : Value)
    (position : Nat) :
    spliced (heap.above earlier) (relocate earlier.size owner) position
        (relocate earlier.size value) =
      relocate earlier.size (spliced heap owner position value) := by
  cases owner with
  | text content => simp [spliced, replacedBy_relocate]
  | none | boolean | integer | list | function => rfl

/-- A target by index is the slot of a list, or a name with a position. -/
theorem indexTarget?_above
    (heap earlier : Heap)
    (ownerNode : Node)
    (owner index : Cell) :
    indexTarget? (heap.above earlier) ownerNode (relocate earlier.size owner)
        (relocate earlier.size index) =
      relocate earlier.size (indexTarget? heap ownerNode owner index) := by
  simp only [indexTarget?, Heap.slot?_above, Heap.read_above, Value.position?_relocate]
  cases heap.slot? owner index with
  | some cell => rfl
  | none =>
      cases ownerNode.word? with
      | none => rfl
      | some name => cases (heap.read index).position? <;> rfl

end Evaluation

end CellScript
