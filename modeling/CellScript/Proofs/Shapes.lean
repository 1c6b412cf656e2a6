import CellScript.Heap.Shape
import CellScript.Proofs.Relocation

namespace CellScript.Heap

/-!
# Shapes of lists

A shape numbers cells in the order in which they are met, so it does not tell
where they are.  Room for as many lists inside each other as a heap has cells is
enough: a list is opened only when its cell is met for the first time, and from
then on there is one cell less to be met.
-/

/-- The cells of a heap that are still to be met, by their places. -/
def unmet (heap : Heap) (met : List Cell) : List Nat :=
  (List.range heap.size).filter fun place => decide (Cell.mk place ∉ met)

variable {heap : Heap}

/-- Meeting more cells leaves out some of those that were still to be met. -/
theorem unmet_of_subset
    {met later : List Cell}
    (grows : met ⊆ later) :
    heap.unmet later =
      (heap.unmet met).filter fun place => decide (Cell.mk place ∉ later) := by
  rw [unmet, unmet, List.filter_filter]
  refine List.filter_congr fun place _ => ?_
  have skips : Cell.mk place ∉ later → Cell.mk place ∉ met := mt (@grows _)
  simpa using skips

theorem length_unmet_le
    {met later : List Cell}
    (grows : met ⊆ later) :
    (heap.unmet later).length ≤ (heap.unmet met).length := by
  rw [unmet_of_subset grows]
  exact List.length_filter_le _ _

/-- Meeting a cell of the heap for the first time leaves one cell less to be met. -/
theorem length_unmet_lt
    {met : List Cell}
    {slot : Cell}
    (within : slot.index < heap.size)
    (isNew : slot ∉ met) :
    (heap.unmet (met ++ [slot])).length < (heap.unmet met).length := by
  have isUnmet : slot.index ∈ heap.unmet met := by
    simpa [unmet] using ⟨within, isNew⟩
  rw [unmet_of_subset (List.subset_append_left met [slot]),
    List.length_filter_lt_length_iff_exists]
  exact ⟨slot.index, isUnmet, by simp⟩

/-- A list lies in a cell of the heap. -/
theorem lt_size_of_list
    {slot : Cell}
    {slots : List Cell}
    (holds : heap.read slot = .list slots) :
    slot.index < heap.size := by
  rw [read] at holds
  by_cases within : slot.index < heap.values.size
  · exact within
  · simp [within] at holds

/-! ## Room -/

/-- Walks that agree on each slot agree on all slots, and they only meet more cells. -/
theorem walkSlots_eq
    {walk other : List Cell → Cell → Slot × List Cell}
    {bound : Nat}
    (steps : ∀ met slot,
      (heap.unmet met).length ≤ bound →
      walk met slot = other met slot ∧ met ⊆ (walk met slot).2)
    (slots : List Cell)
    {met : List Cell}
    (enough : (heap.unmet met).length ≤ bound) :
    walkSlots walk met slots = walkSlots other met slots ∧
      met ⊆ (walkSlots walk met slots).2 := by
  induction slots generalizing met with
  | nil => exact ⟨rfl, List.Subset.refl met⟩
  | cons slot rest inductionHypothesis =>
      obtain ⟨same, grows⟩ := steps met slot enough
      obtain ⟨sameRest, growsOn⟩ :=
        inductionHypothesis (Nat.le_trans (length_unmet_le grows) enough)
      refine ⟨?_, List.Subset.trans grows growsOn⟩
      simp only [walkSlots, ← same, sameRest]

/-- A cell that was met before is shown by its number. -/
theorem slotShape_of_met
    {room number : Nat}
    {met : List Cell}
    {slot : Cell}
    (found : met.idxOf? slot = some number) :
    slotShape heap room met slot = (.cell number, met) := by
  rw [slotShape, found]

/-- A new cell without a list gets the next number. -/
theorem slotShape_of_scalar
    {room : Nat}
    {met : List Cell}
    {slot : Cell}
    (isNew : met.idxOf? slot = none)
    (noList : (heap.read slot).isList = false) :
    slotShape heap room met slot = (.cell met.length, met ++ [slot]) := by
  rw [slotShape, isNew]
  cases holds : heap.read slot with
  | list slots =>
      rw [holds] at noList
      cases noList
  | none | boolean | integer | text | function => simp

/-- A new cell with a list gets the next number, and the list is opened. -/
theorem slotShape_of_list
    {room : Nat}
    {met : List Cell}
    {slot : Cell}
    {slots : List Cell}
    (isNew : met.idxOf? slot = none)
    (holds : heap.read slot = .list slots) :
    slotShape heap (room + 1) met slot =
      let walked := walkSlots (slotShape heap room) (met ++ [slot]) slots
      (.opened met.length walked.1, walked.2) := by
  rw [slotShape, isNew]
  simp only [holds]

/-- Two walks with room enough for all cells that are still to be met go alike. -/
theorem slotShape_eq
    {room other : Nat}
    {met : List Cell}
    (enough : (heap.unmet met).length ≤ room)
    (otherEnough : (heap.unmet met).length ≤ other)
    (slot : Cell) :
    slotShape heap room met slot = slotShape heap other met slot ∧
      met ⊆ (slotShape heap room met slot).2 := by
  induction room generalizing other met slot with
  | zero =>
      cases isMet : met.idxOf? slot with
      | some number =>
          simp [slotShape_of_met isMet]
      | none =>
          have noList : (heap.read slot).isList = false := by
            cases holds : heap.read slot with
            | list slots =>
                have fewer := length_unmet_lt (lt_size_of_list holds)
                  (List.idxOf?_eq_none_iff.mp isMet)
                omega
            | none | boolean | integer | text | function => rfl
          simp [slotShape_of_scalar isMet noList]
  | succ room inductionHypothesis =>
      cases isMet : met.idxOf? slot with
      | some number =>
          simp [slotShape_of_met isMet]
      | none =>
          cases holds : heap.read slot with
          | list slots =>
              have fewer := length_unmet_lt (lt_size_of_list holds)
                (List.idxOf?_eq_none_iff.mp isMet)
              obtain ⟨other, rfl⟩ : ∃ less, other = less + 1 := ⟨other - 1, by omega⟩
              have least : (heap.unmet (met ++ [slot])).length ≤ min room other := by omega
              obtain ⟨same, grows⟩ :=
                walkSlots_eq
                  (fun met slot enough =>
                    inductionHypothesis (Nat.le_trans enough (Nat.min_le_left room other))
                      (Nat.le_trans enough (Nat.min_le_right room other)) slot)
                  slots least
              rw [slotShape_of_list isMet holds, slotShape_of_list isMet holds, same]
              rw [same] at grows
              exact ⟨rfl, List.Subset.trans (List.subset_append_left met [slot]) grows⟩
          | none | boolean | integer | text | function =>
              simp [slotShape_of_scalar isMet (congrArg Value.isList holds)]

/-! ## Relocation -/

theorem idxOf?_relocate
    (offset : Nat)
    (met : List Cell)
    (slot : Cell) :
    (relocate offset met).idxOf? (relocate offset slot) = met.idxOf? slot := by
  rw [List.idxOf?, List.idxOf?, relocate_eq_map, List.findIdx?_map]
  refine congrArg (List.findIdx? · met) (funext fun cell => ?_)
  simp [Bool.beq_eq_decide_eq]

theorem walkSlots_relocate
    {walk other : List Cell → Cell → Slot × List Cell}
    {offset : Nat}
    (steps : ∀ met slot,
      other (relocate offset met) (relocate offset slot) =
        ((walk met slot).1, relocate offset (walk met slot).2))
    (met slots : List Cell) :
    walkSlots other (relocate offset met) (relocate offset slots) =
      ((walkSlots walk met slots).1, relocate offset (walkSlots walk met slots).2) := by
  induction slots generalizing met with
  | nil => rfl
  | cons slot rest inductionHypothesis =>
      simp only [relocate_cons, walkSlots, steps, inductionHypothesis]

variable (heap) (earlier : Heap)

/-- The shape of a slot is the same on top of an earlier heap. -/
theorem slotShape_above
    (room : Nat)
    (met : List Cell)
    (slot : Cell) :
    slotShape (heap.above earlier) room (relocate earlier.size met)
        (relocate earlier.size slot) =
      ((slotShape heap room met slot).1,
        relocate earlier.size (slotShape heap room met slot).2) := by
  induction room generalizing met slot with
  | zero =>
      rw [slotShape, slotShape, idxOf?_relocate]
      cases met.idxOf? slot with
      | some number => rfl
      | none => simp [relocate_eq_map]
  | succ room inductionHypothesis =>
      cases isMet : met.idxOf? slot with
      | some number =>
          rw [slotShape_of_met isMet, slotShape_of_met ((idxOf?_relocate ..).trans isMet)]
      | none =>
          have otherIsMet := (idxOf?_relocate earlier.size met slot).trans isMet
          have otherHolds := heap.read_above earlier slot
          have meets :
              relocate earlier.size met ++ [relocate earlier.size slot] =
                relocate earlier.size (met ++ [slot]) := by
            simp [relocate_eq_map]
          have sameLength : (relocate earlier.size met).length = met.length :=
            List.length_map _
          cases holds : heap.read slot with
          | list slots =>
              rw [holds, Value.relocate_list] at otherHolds
              rw [slotShape_of_list isMet holds, slotShape_of_list otherIsMet otherHolds,
                meets, sameLength, walkSlots_relocate inductionHypothesis]
          | none | boolean | integer | text | function =>
              have noList := congrArg Value.isList holds
              rw [← Value.isList_relocate earlier.size, ← otherHolds] at noList
              rw [slotShape_of_scalar isMet (congrArg Value.isList holds),
                slotShape_of_scalar otherIsMet noList, meets, sameLength]

/-- A list has the same shape wherever its cells are. -/
theorem shape_above
    (slots : List Cell) :
    (heap.above earlier).shape (relocate earlier.size slots) = heap.shape slots := by
  have enough : (heap.unmet []).length ≤ heap.size :=
    Nat.le_trans (List.length_filter_le _ _) (Nat.le_of_eq List.length_range)
  have same :
      walkSlots (slotShape heap ((heap.above earlier).size + 1)) [] slots =
        walkSlots (slotShape heap (heap.size + 1)) [] slots := by
    refine (walkSlots_eq (fun met slot within => slotShape_eq ?_ ?_ slot) slots enough).1
    · rw [size_above]
      omega
    · omega
  have walked :=
    walkSlots_relocate (slotShape_above heap earlier ((heap.above earlier).size + 1)) [] slots
  rw [shape, ← relocate_nil earlier.size, walked, same, shape]

end CellScript.Heap
