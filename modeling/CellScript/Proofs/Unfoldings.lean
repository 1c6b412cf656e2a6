import CellScript.Heap.Equality
import CellScript.Proofs.SnapshotViews
import Mathlib.Data.List.Forall2

namespace CellScript

/-!
# Structural equality

Comparing two cells goes through both in step and stops early where they meet in one
cell.  Cells that compare as equal cannot be told apart by any view of their values,
also where lists contain themselves.  Where both unfold to finite trees, comparing comes
to an end, and its answer is whether the trees are the same: neither the shortcut nor
the sharing of cells can be seen in it.
-/

/-- A value with its items in the place of its slots, down to values that are no lists. -/
inductive Unfolding where
  | none
  | boolean (value : Bool)
  | integer (value : Int64)
  | text (content : String)
  | list (items : List Unfolding)
  | function (parameters : List String) (body : Node)
  deriving Repr

/-- A value unfolds to a finite tree, as the values in its slots do. -/
inductive Value.Unfolds (heap : Heap) : Value → Unfolding → Prop where
  | none :
      Unfolds heap .none .none
  | boolean (value : Bool) :
      Unfolds heap (.boolean value) (.boolean value)
  | integer (value : Int64) :
      Unfolds heap (.integer value) (.integer value)
  | text (content : String) :
      Unfolds heap (.text content) (.text content)
  | function (parameters : List String) (body : Node) :
      Unfolds heap (.function parameters body) (.function parameters body)
  | list
      {slots : List Cell}
      (item : Cell → Unfolding)
      (items : ∀ slot ∈ slots, Unfolds heap (heap.read slot) (item slot)) :
      Unfolds heap (.list slots) (.list (slots.map item))

namespace Value.Unfolds

variable {heap : Heap} {value other : Value} {tree otherTree : Unfolding}

/-- A value unfolds to one tree only. -/
theorem unique
    (unfolds : value.Unfolds heap tree)
    (unfoldsToo : value.Unfolds heap otherTree) :
    tree = otherTree := by
  induction unfolds generalizing otherTree with
  | none | boolean | integer | text | function =>
      cases unfoldsToo
      rfl
  | @list slots item items inductionHypothesis =>
      cases unfoldsToo with
      | list otherItem otherItems =>
          congr 1
          apply List.map_congr_left
          intro slot isSlot
          exact inductionHypothesis slot isSlot (otherItems slot isSlot)

/-- Values of which one is no list are the same if and only if they unfold to the same tree. -/
theorem eq_iff_of_notLists
    (notLists : (value.isList && other.isList) = false)
    (unfolds : value.Unfolds heap tree)
    (otherUnfolds : other.Unfolds heap otherTree) :
    value = other ↔ tree = otherTree := by
  cases unfolds <;> cases otherUnfolds <;> simp_all [isList]

end Value.Unfolds

namespace Heap

/-- A cell unfolds to a finite tree. -/
def Unfolds (heap : Heap) (cell : Cell) (tree : Unfolding) : Prop :=
  (heap.read cell).Unfolds heap tree

/-- With enough fuel, comparing two cells comes to an answer. -/
def Compares (heap : Heap) (left right : Cell) (answer : Bool) : Prop :=
  ∃ fuel, heap.equal? fuel left right = some answer

variable {heap : Heap} {fuel : Nat} {left right : Cell} {lefts rights : List Cell} {answer : Bool}

/-! ## Single comparisons -/

/-- Two cells are one, or one of them holds no list, or they are different lists. -/
theorem same_or_notLists_or_lists
    (heap : Heap)
    (left right : Cell) :
    left = right ∨
      ((heap.read left).isList && (heap.read right).isList) = false ∨
      ∃ lefts rights,
        left ≠ right ∧ heap.read left = .list lefts ∧ heap.read right = .list rights := by
  by_cases same : left = right
  · exact .inl same
  · cases isList : heap.read left with
    | list lefts =>
        cases otherIsList : heap.read right with
        | list rights => exact .inr (.inr ⟨lefts, rights, same, rfl, rfl⟩)
        | none | boolean | integer | text | function => exact .inr (.inl rfl)
    | none | boolean | integer | text | function => exact .inr (.inl rfl)

/-- A cell compares as equal to itself, whatever it holds. -/
theorem equal?_self
    (heap : Heap)
    (fuel : Nat)
    (cell : Cell) :
    heap.equal? (fuel + 1) cell cell = some true := by
  rw [equal?, if_pos rfl]

/-- Cells of which one holds no list are compared by their values. -/
theorem equal?_of_notLists
    (fuel : Nat)
    (notLists : ((heap.read left).isList && (heap.read right).isList) = false) :
    heap.equal? (fuel + 1) left right = some (decide (heap.read left = heap.read right)) := by
  rw [equal?]
  split
  · next same => simp [same]
  · split
    · next isList otherIsList =>
        rw [isList, otherIsList] at notLists
        cases notLists
    · rfl

/-- Different cells that hold lists are compared by their slots. -/
theorem equal?_of_lists
    (fuel : Nat)
    (differ : left ≠ right)
    (isList : heap.read left = .list lefts)
    (otherIsList : heap.read right = .list rights) :
    heap.equal? (fuel + 1) left right =
      if lefts.length = rights.length then
        compareSlots? (heap.equal? fuel) lefts rights
      else
        some false := by
  rw [equal?, if_neg differ, isList, otherIsList]

/-! ## Comparing slots -/

/-- Slots compare as equal when they do so pair by pair. -/
theorem compareSlots?_eq_true_iff
    {compare? : Cell → Cell → Option Bool} :
    compareSlots? compare? lefts rights = some true ↔
      List.Forall₂ (fun left right => compare? left right = some true) lefts rights := by
  induction lefts generalizing rights with
  | nil => cases rights <;> simp [compareSlots?]
  | cons left lefts inductionHypothesis =>
      cases rights with
      | nil => simp [compareSlots?]
      | cons right rights =>
          rw [List.forall₂_cons, ← inductionHypothesis, compareSlots?]
          cases compare? left right with
          | none => simp
          | some answer => cases answer <;> simp

/-- An answer about slots stays when no answer about two cells is taken back. -/
theorem compareSlots?_mono
    {compare? moreCompare? : Cell → Cell → Option Bool}
    (keeps : ∀ left right answer,
      compare? left right = some answer → moreCompare? left right = some answer)
    (compared : compareSlots? compare? lefts rights = some answer) :
    compareSlots? moreCompare? lefts rights = some answer := by
  induction lefts generalizing rights with
  | nil => cases rights <;> exact compared
  | cons left lefts inductionHypothesis =>
      cases rights with
      | nil => exact compared
      | cons right rights =>
          rw [compareSlots?] at compared ⊢
          cases first : compare? left right with
          | none =>
              rw [first] at compared
              cases compared
          | some same =>
              rw [keeps left right same first]
              rw [first] at compared
              cases same with
              | true => exact inductionHypothesis compared
              | false => exact compared

/-- More fuel does not change the answer of a comparison. -/
theorem equal?_mono
    {more : Nat}
    (enough : fuel ≤ more)
    (compared : heap.equal? fuel left right = some answer) :
    heap.equal? more left right = some answer := by
  induction fuel generalizing more left right answer with
  | zero => cases compared
  | succ fuel inductionHypothesis =>
      obtain ⟨more, rfl⟩ : ∃ less, more = less + 1 := ⟨more - 1, by omega⟩
      have keeps left right answer :
          heap.equal? fuel left right = some answer →
          heap.equal? more left right = some answer :=
        inductionHypothesis (Nat.le_of_succ_le_succ enough)
      rcases heap.same_or_notLists_or_lists left right with
        rfl | notLists | ⟨lefts, rights, differ, isList, otherIsList⟩
      · rwa [equal?_self] at compared ⊢
      · rwa [equal?_of_notLists _ notLists] at compared ⊢
      · rw [equal?_of_lists _ differ isList otherIsList] at compared ⊢
        split at compared
        · next sameLength =>
            rw [if_pos sameLength]
            exact compareSlots?_mono keeps compared
        · next otherLength =>
            rw [if_neg otherLength]
            exact compared

/-- Comparing two cells comes to one answer only. -/
theorem Compares.unique
    {otherAnswer : Bool}
    (compares : heap.Compares left right answer)
    (comparesToo : heap.Compares left right otherAnswer) :
    answer = otherAnswer := by
  obtain ⟨fuel, compared⟩ := compares
  obtain ⟨otherFuel, otherCompared⟩ := comparesToo
  have first := equal?_mono (Nat.le_max_left fuel otherFuel) compared
  have second := equal?_mono (Nat.le_max_right fuel otherFuel) otherCompared
  exact Option.some.inj (first.symm.trans second)

/-! ## Soundness -/

/-- Cells that compare as equal have the same snapshot, whatever room there is for lists. -/
theorem snapshotWithin_of_equal?
    (compared : heap.equal? fuel left right = some true)
    (room : Nat) :
    (heap.read left).snapshotWithin heap room = (heap.read right).snapshotWithin heap room := by
  -- Lists that contain themselves have no size, so the induction is on the fuel of the
  -- comparison, which has come to an answer; the room is one less at every level too.
  induction fuel generalizing left right room with
  | zero => cases compared
  | succ fuel inductionHypothesis =>
      rcases heap.same_or_notLists_or_lists left right with
        rfl | notLists | ⟨lefts, rights, differ, isList, otherIsList⟩
      · rfl
      · rw [equal?_of_notLists _ notLists, Option.some.injEq, decide_eq_true_iff] at compared
        rw [compared]
      · rw [equal?_of_lists _ differ isList otherIsList] at compared
        rw [isList, otherIsList]
        cases room with
        | zero => rfl
        | succ room =>
            split at compared
            · rw [Value.snapshotWithin, Value.snapshotWithin]
              congr 1
              rw [← List.forall₂_eq_eq_eq, List.forall₂_map_left_iff,
                List.forall₂_map_right_iff]
              exact (compareSlots?_eq_true_iff.mp compared).imp fun _ _ paired =>
                inductionHypothesis paired room
            · cases compared

theorem Compares.snapshot_eq
    (compares : heap.Compares left right true) :
    (heap.read left).snapshot heap = (heap.read right).snapshot heap := by
  obtain ⟨fuel, compared⟩ := compares
  exact snapshotWithin_of_equal? compared Snapshot.depthLimit

/-! ## Completeness on finite trees -/

/-- Slots for which every comparison is decided by trees are compared by lists of trees. -/
theorem exists_compareSlots?
    {item otherItem : Cell → Unfolding}
    (sameLength : lefts.length = rights.length)
    (decided : ∀ left ∈ lefts, ∀ right ∈ rights, ∃ answer,
      heap.Compares left right answer ∧ (answer = true ↔ item left = otherItem right)) :
    ∃ fuel answer,
      compareSlots? (heap.equal? fuel) lefts rights = some answer ∧
        (answer = true ↔ lefts.map item = rights.map otherItem) := by
  induction lefts generalizing rights with
  | nil =>
      obtain rfl := List.length_eq_zero_iff.mp sameLength.symm
      exact ⟨0, true, rfl, by simp⟩
  | cons left lefts inductionHypothesis =>
      cases rights with
      | nil => cases sameLength
      | cons right rights =>
          obtain ⟨answer, ⟨fuel, compared⟩, byTrees⟩ :=
            decided left List.mem_cons_self right List.mem_cons_self
          cases answer with
          | false =>
              refine ⟨fuel, false, by rw [compareSlots?, compared], ?_⟩
              simp [← byTrees]
          | true =>
              obtain ⟨restFuel, restAnswer, restCompared, restByTrees⟩ :=
                inductionHypothesis (Nat.succ.inj sameLength) fun left isLeft right isRight =>
                  decided left (.tail _ isLeft) right (.tail _ isRight)
              refine ⟨max fuel restFuel, restAnswer, ?_, ?_⟩
              · rw [compareSlots?, equal?_mono (Nat.le_max_left fuel restFuel) compared]
                exact compareSlots?_mono
                  (fun _ _ _ => equal?_mono (Nat.le_max_right fuel restFuel)) restCompared
              · simp [restByTrees, ← byTrees]

/-- Cells of which one holds no list compare as their trees do. -/
theorem Unfolds.exists_compares_of_notLists
    {tree otherTree : Unfolding}
    (notLists : ((heap.read left).isList && (heap.read right).isList) = false)
    (unfolds : heap.Unfolds left tree)
    (otherUnfolds : heap.Unfolds right otherTree) :
    ∃ answer, heap.Compares left right answer ∧ (answer = true ↔ tree = otherTree) := by
  refine ⟨_, ⟨1, equal?_of_notLists 0 notLists⟩, ?_⟩
  rw [decide_eq_true_iff]
  exact Value.Unfolds.eq_iff_of_notLists notLists unfolds otherUnfolds

/-- Comparing cells that unfold to finite trees comes to an answer, which their trees decide. -/
theorem Unfolds.exists_compares
    {tree otherTree : Unfolding}
    (unfolds : heap.Unfolds left tree)
    (otherUnfolds : heap.Unfolds right otherTree) :
    ∃ answer, heap.Compares left right answer ∧ (answer = true ↔ tree = otherTree) := by
  generalize holds : heap.read left = value
  have unfoldsValue : value.Unfolds heap tree := holds ▸ unfolds
  induction unfoldsValue generalizing left right otherTree with
  | none | boolean | integer | text | function =>
      refine exists_compares_of_notLists ?_ unfolds otherUnfolds
      rw [holds]
      rfl
  | @list slots item items inductionHypothesis =>
      rcases heap.same_or_notLists_or_lists left right with
        rfl | notLists | ⟨lefts, rights, differ, isList, otherIsList⟩
      · exact ⟨true, ⟨1, equal?_self heap 0 left⟩, by simp [unfolds.unique otherUnfolds]⟩
      · exact exists_compares_of_notLists notLists unfolds otherUnfolds
      · rw [Unfolds, otherIsList] at otherUnfolds
        cases otherUnfolds with
        | list otherItem otherItems =>
            by_cases sameLength : slots.length = rights.length
            · have decided : ∀ left ∈ slots, ∀ right ∈ rights, ∃ answer,
                  heap.Compares left right answer ∧
                    (answer = true ↔ item left = otherItem right) :=
                fun left isLeft right isRight =>
                  inductionHypothesis left isLeft (items left isLeft) (otherItems right isRight) rfl
              obtain ⟨fuel, answer, compared, byTrees⟩ := exists_compareSlots? sameLength decided
              refine ⟨answer, ⟨fuel + 1, ?_⟩, by simpa using byTrees⟩
              rw [equal?_of_lists fuel differ holds otherIsList, if_pos sameLength, compared]
            · refine ⟨false, ⟨1, ?_⟩, ?_⟩
              · rw [equal?_of_lists 0 differ holds otherIsList, if_neg sameLength]
              · have differ : slots.map item ≠ rights.map otherItem := fun same =>
                  sameLength (by simpa using congrArg List.length same)
                simp [differ]

/-- A comparison of cells that unfold to finite trees answers whether these are the same. -/
theorem Unfolds.compares_iff
    {tree otherTree : Unfolding}
    (unfolds : heap.Unfolds left tree)
    (otherUnfolds : heap.Unfolds right otherTree) :
    heap.Compares left right answer ↔ (answer = true ↔ tree = otherTree) := by
  obtain ⟨decided, compares, byTrees⟩ := unfolds.exists_compares otherUnfolds
  constructor
  · intro comparesToo
    rw [comparesToo.unique compares, byTrees]
  · intro alsoByTrees
    have same : answer = decided := by
      rw [Bool.eq_iff_iff, alsoByTrees, byTrees]
    rwa [same]

end Heap

/-! ## What comparing cells tells -/

/--
Cells that compare as equal have values with the same snapshot, which are displayed,
printed and joined alike and are alike true, in every heap.  Where two cells unfold to
finite trees, comparing them comes to an end, and to the answer whether these trees are
the same.  So on such cells it is an equivalence, and cells of another heap that unfold
to the same trees compare alike, whichever cells are shared there.
-/
theorem Heap.comparison_tells_unfoldings :
    (∀ (heap : Heap) (left right : Cell),
      heap.Compares left right true →
      (heap.read left).snapshot heap = (heap.read right).snapshot heap ∧
      (heap.read left).display heap = (heap.read right).display heap ∧
      (heap.read left).render heap = (heap.read right).render heap ∧
      (heap.read left).join heap = (heap.read right).join heap ∧
      (heap.read left).isTruthy = (heap.read right).isTruthy) ∧
    (∀ (heap : Heap) (left right : Cell) (tree otherTree : Unfolding),
      heap.Unfolds left tree →
      heap.Unfolds right otherTree →
      (∃ answer, heap.Compares left right answer) ∧
      (heap.Compares left right true ↔ tree = otherTree) ∧
      (heap.Compares left right false ↔ tree ≠ otherTree)) ∧
    (∀ (heap : Heap) (first second third : Cell) (tree secondTree thirdTree : Unfolding),
      heap.Unfolds first tree →
      heap.Unfolds second secondTree →
      heap.Unfolds third thirdTree →
      heap.Compares first first true ∧
      (heap.Compares first second true → heap.Compares second first true) ∧
      (heap.Compares first second true → heap.Compares second third true →
        heap.Compares first third true)) ∧
    ∀ (heap otherHeap : Heap) (left right otherLeft otherRight : Cell)
      (tree otherTree : Unfolding),
      heap.Unfolds left tree →
      heap.Unfolds right otherTree →
      otherHeap.Unfolds otherLeft tree →
      otherHeap.Unfolds otherRight otherTree →
      ∀ answer,
        heap.Compares left right answer ↔ otherHeap.Compares otherLeft otherRight answer := by
  refine ⟨?_, ?_, ?_, ?_⟩
  · intro heap left right compares
    have same := compares.snapshot_eq
    exact ⟨same, Value.display_eq_of_snapshot same, Value.render_eq_of_snapshot same,
      Value.join_eq_of_snapshot same, Value.isTruthy_eq_of_snapshot same⟩
  · intro heap left right tree otherTree unfolds otherUnfolds
    obtain ⟨answer, compares, -⟩ := unfolds.exists_compares otherUnfolds
    refine ⟨⟨answer, compares⟩, ?_, ?_⟩
    · simp [unfolds.compares_iff otherUnfolds]
    · simp [unfolds.compares_iff otherUnfolds]
  · intro heap first second third tree secondTree thirdTree unfolds secondUnfolds thirdUnfolds
    refine ⟨⟨1, Heap.equal?_self heap 0 first⟩, ?_, ?_⟩
    · intro compares
      rw [unfolds.compares_iff secondUnfolds] at compares
      rw [secondUnfolds.compares_iff unfolds, compares]
      exact eq_comm
    · intro compares comparesOn
      rw [unfolds.compares_iff secondUnfolds] at compares
      rw [secondUnfolds.compares_iff thirdUnfolds] at comparesOn
      rw [unfolds.compares_iff thirdUnfolds]
      simp [compares.mp rfl, comparesOn.mp rfl]
  · intro heap otherHeap left right otherLeft otherRight tree otherTree unfolds unfoldsRight
      otherUnfolds otherUnfoldsRight answer
    rw [unfolds.compares_iff unfoldsRight, otherUnfolds.compares_iff otherUnfoldsRight]

/--
A list of one cell twice compares as equal to a list of two cells, since both unfold to
the same tree.  A list within itself compares as equal to a list of it, though neither
unfolds to a finite tree, and has the same snapshot.
-/
theorem Heap.shared_slots_compare_as_separate_ones :
    let heap : Heap :=
      { values := #[
          .integer 7, .list [⟨0⟩, ⟨0⟩], .integer 7, .integer 7, .list [⟨2⟩, ⟨3⟩],
          .list [⟨5⟩], .list [⟨5⟩]] }
    let tree := Unfolding.list [.integer 7, .integer 7]
    heap.Unfolds ⟨1⟩ tree ∧
      heap.Unfolds ⟨4⟩ tree ∧
      heap.Compares ⟨1⟩ ⟨4⟩ true ∧
      heap.Compares ⟨6⟩ ⟨5⟩ true ∧
      (heap.read ⟨6⟩).snapshot heap = (heap.read ⟨5⟩).snapshot heap := by
  intro heap tree
  obtain ⟨sound, complete, -, -⟩ := comparison_tells_unfoldings
  have sevens : ∀ slot ∈ ([⟨0⟩, ⟨0⟩] ++ [⟨2⟩, ⟨3⟩] : List Cell),
      (heap.read slot).Unfolds heap (.integer 7) := by
    intro slot isSlot
    have holds : heap.read slot = .integer 7 := by
      revert slot
      decide
    rw [holds]
    exact .integer 7
  have shared : heap.Unfolds ⟨1⟩ tree :=
    .list (fun _ => .integer 7) fun slot isSlot =>
      sevens slot (List.mem_append_left _ isSlot)
  have separate : heap.Unfolds ⟨4⟩ tree :=
    .list (fun _ => .integer 7) fun slot isSlot =>
      sevens slot (List.mem_append_right _ isSlot)
  have endless : heap.Compares ⟨6⟩ ⟨5⟩ true := ⟨2, rfl⟩
  exact ⟨shared, separate, (complete heap _ _ _ _ shared separate).2.1.mpr rfl, endless,
    (sound heap _ _ endless).1⟩

end CellScript
