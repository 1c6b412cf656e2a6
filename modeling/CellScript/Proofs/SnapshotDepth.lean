import CellScript.Proofs.SnapshotText

namespace CellScript

/-!
# The depth of snapshots

In the text of a snapshot every list takes up an object and an array, so what lies
in it lies two levels further down.  Where lists are cut off, the text is already
deeper than what can be read.  So the snapshot of a value that goes down that far is
not read back from its text, although it is cut off.
-/

/-! ## Values inside lists -/

namespace Value

/-- A value lies in another inside a number of lists, which lead to it slot by slot. -/
inductive LiesIn (heap : Heap) (inner : Value) : (lists : Nat) → Value → Prop where
  | self :
      LiesIn heap inner 0 inner
  | slot
      {lists : Nat}
      {slots : List Cell}
      {slot : Cell}
      (isSlot : slot ∈ slots)
      (below : LiesIn heap inner lists (heap.read slot)) :
      LiesIn heap inner (lists + 1) (.list slots)

/-- No list and no function lies in a value inside more than so many lists. -/
def NestsWithin (heap : Heap) (limit : Nat) (value : Value) : Prop :=
  ∀ lists (inner : Value),
    inner.LiesIn heap lists value →
    (inner.isList || inner.isFunction) = true →
    lists ≤ limit

variable {heap : Heap} {limit room : Nat} {value : Value} {slots : List Cell}

theorem nestsWithin_of_noList
    (noList : value.isList = false) :
    value.NestsWithin heap limit := by
  intro lists inner lies _
  cases lies with
  | self => exact Nat.zero_le limit
  | slot => cases noList

/-- A list without room for another one holds neither lists nor functions. -/
theorem nestsWithin_zero_list :
    (list slots).NestsWithin heap 0 ↔
      ∀ slot ∈ slots, ((heap.read slot).isList || (heap.read slot).isFunction) = false := by
  constructor
  · intro nests slot isSlot
    rw [Bool.eq_false_iff]
    intro opens
    exact absurd (nests 1 _ (.slot isSlot .self) opens) (by decide)
  · intro plain lists inner lies opens
    cases lies with
    | self => exact Nat.le_refl 0
    | slot isSlot below =>
        have noMore := plain _ isSlot
        generalize heap.read _ = item at below noMore
        cases below with
        | self => exact absurd opens (by rw [noMore]; decide)
        | slot => cases noMore

/-- The items of a list have room for one list less than the list itself. -/
theorem nestsWithin_succ_list :
    (list slots).NestsWithin heap (limit + 1) ↔
      ∀ slot ∈ slots, (heap.read slot).NestsWithin heap limit := by
  constructor
  · intro nests slot isSlot lists inner lies opens
    exact Nat.le_of_succ_le_succ (nests _ inner (.slot isSlot lies) opens)
  · intro items lists inner lies opens
    cases lies with
    | self => exact Nat.zero_le _
    | slot isSlot below => exact Nat.succ_le_succ (items _ isSlot _ inner below opens)

end Value

/-! ## Levels of the text -/

namespace Snapshot

theorem nestingOfItems_le_iff
    {bound : Nat}
    {items : List Snapshot} :
    Json.nestingOfItems (toJsonAll items) ≤ bound ↔
      ∀ item ∈ items, item.toJson.nesting ≤ bound := by
  induction items with
  | nil => simp [toJsonAll, Json.nestingOfItems]
  | cons item rest inductionHypothesis =>
      rw [toJsonAll, Json.nestingOfItems, Nat.max_le, inductionHypothesis, List.forall_mem_cons]

end Snapshot

namespace Value

variable {heap : Heap} {limit room : Nat}

/-- Without a list or a function, a snapshot takes up the object of its tag alone. -/
theorem nesting_snapshotWithin_le_one
    (value : Value) :
    (value.snapshotWithin heap room).toJson.nesting ≤ 1 ↔
      (value.isList || value.isFunction) = false := by
  cases value with
  | none | boolean | integer | text =>
      simp [snapshotWithin, Snapshot.toJson, Json.nesting_ofTagged, Json.nesting, Json.ofInt64,
        Json.ofString, isList, isFunction]
  | list slots =>
      cases room <;> simp [snapshotWithin, Snapshot.nesting_list, isList]
  | function parameters body =>
      simp [snapshotWithin, Snapshot.nesting_function, isFunction]

/-- The JSON form of a value that is no list lies at most three levels deep, as functions do. -/
theorem nesting_snapshotWithin_le_three
    {value : Value}
    (noList : value.isList = false) :
    (value.snapshotWithin heap room).toJson.nesting ≤ 3 := by
  cases value with
  | none | boolean | integer | text =>
      exact Nat.le_trans ((nesting_snapshotWithin_le_one _).mpr rfl) (by decide)
  | list slots => cases noList
  | function parameters body =>
      rw [snapshotWithin]
      exact Nat.le_of_eq (Snapshot.nesting_function parameters)

/-- A list adds two levels to its JSON form, one for its tag and one for its items. -/
theorem nesting_snapshotWithin_list_le
    {slots : List Cell}
    (bound : Nat) :
    ((list slots).snapshotWithin heap (room + 1)).toJson.nesting ≤ bound + 2 ↔
      ∀ slot ∈ slots, ((heap.read slot).snapshotWithin heap room).toJson.nesting ≤ bound := by
  rw [snapshotWithin, Snapshot.nesting_list, Nat.add_le_add_iff_right,
    Snapshot.nestingOfItems_le_iff]
  simp

/-- As long as nothing is cut off, a snapshot takes up two levels for every list it opens. -/
theorem nesting_snapshotWithin_le_iff
    {value : Value}
    (uncut : limit < room) :
    (value.snapshotWithin heap room).toJson.nesting ≤ 2 * limit + 3 ↔
      value.NestsWithin heap limit := by
  induction limit generalizing room value with
  | zero =>
      obtain ⟨room, rfl⟩ : ∃ less, room = less + 1 := ⟨room - 1, by omega⟩
      cases value with
      | list slots =>
          rw [nestsWithin_zero_list, nesting_snapshotWithin_list_le 1]
          simp only [nesting_snapshotWithin_le_one]
      | none | boolean | integer | text | function =>
          exact iff_of_true (nesting_snapshotWithin_le_three rfl) (nestsWithin_of_noList rfl)
  | succ limit inductionHypothesis =>
      obtain ⟨room, rfl⟩ : ∃ less, room = less + 1 := ⟨room - 1, by omega⟩
      cases value with
      | list slots =>
          rw [nestsWithin_succ_list, Nat.mul_succ, Nat.add_right_comm,
            nesting_snapshotWithin_list_le]
          have uncutBelow : limit < room := by omega
          simp only [inductionHypothesis uncutBelow]
      | none | boolean | integer | text | function =>
          exact iff_of_true (Nat.le_trans (nesting_snapshotWithin_le_three rfl) (by omega))
            (nestsWithin_of_noList rfl)

/-- What is cut off takes up no more levels. -/
theorem nesting_snapshotWithin_le
    (heap : Heap)
    (room : Nat)
    (value : Value) :
    (value.snapshotWithin heap room).toJson.nesting ≤ 2 * room + 3 := by
  induction room generalizing value with
  | zero =>
      cases value with
      | list slots => exact Nat.le_succ 2
      | none | boolean | integer | text | function => exact nesting_snapshotWithin_le_three rfl
  | succ room inductionHypothesis =>
      cases value with
      | list slots =>
          rw [Nat.mul_succ, Nat.add_right_comm, nesting_snapshotWithin_list_le]
          exact fun slot _ => inductionHypothesis (heap.read slot)
      | none | boolean | integer | text | function =>
          exact Nat.le_trans (nesting_snapshotWithin_le_three rfl) (by omega)

end Value

/--
The snapshot of a value is read back from its text exactly if no list and no function
lies in the value inside more than 62 lists; otherwise nothing is read.  The cut-off
keeps the text from lying deeper than 131 levels, which is more than can be read.
-/
theorem Snapshot.read_back_iff_nestsWithin
    (heap : Heap)
    (value : Value) :
    (ofText? (value.snapshot heap).toText = some (value.snapshot heap) ↔
      value.NestsWithin heap 62) ∧
    (ofText? (value.snapshot heap).toText = Option.none ↔ ¬ value.NestsWithin heap 62) ∧
    (value.snapshot heap).toJson.nesting ≤ 131 := by
  have fits :
      (value.snapshot heap).toJson.nesting ≤ nestingLimit ↔ value.NestsWithin heap 62 :=
    Value.nesting_snapshotWithin_le_iff (show 62 < depthLimit by decide)
  refine ⟨?_, ?_, Value.nesting_snapshotWithin_le heap depthLimit value⟩
  · rw [ofText?_toText, ← fits]
    simp
  · rw [ofText?_toText, ← fits]
    simp

/-- The snapshot of a list that contains itself is cut off and still too deep to be read. -/
theorem Snapshot.list_within_itself_is_not_read_back :
    let heap : Heap := { values := #[.list [⟨0⟩]] }
    let snapshot := (heap.read ⟨0⟩).snapshot heap
    snapshot.toJson.nesting = 130 ∧ ofText? snapshot.toText = Option.none := by
  intro heap snapshot
  have deep : snapshot.toJson.nesting = 130 := by decide +kernel
  refine ⟨deep, ?_⟩
  rw [ofText?_toText, deep]
  rfl

end CellScript
