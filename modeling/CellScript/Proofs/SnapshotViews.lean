import CellScript.Snapshot
import CellScript.Proofs.Comparisons

namespace CellScript

/-!
# What a snapshot tells

Taking a snapshot, displaying and joining go through the lists in a value in the
same way, and each of them stops at a depth of its own, so none goes on for ever.
A snapshot keeps all lists that the others open.  So it tells the displayed and the
joined form of a value, its truth and the scalar behind it.  What it does not tell is
which cells are one and the same.
-/

/-! ## Going through lists -/

/-- What is made of the values that are met on the way through a value. -/
structure Traversal (α : Type) where
  /-- The number of lists that may lie inside each other before one lies too deep. -/
  limit : Nat
  /-- What is made of a value that is no list. -/
  plain : Value → α
  /-- What is made of a list that lies too deep. -/
  tooDeep : α
  /-- What is made of any other list, from its items and from what was made of them. -/
  opened : List (Value × α) → α

namespace Traversal

variable {α : Type} {traversal : Traversal α} {heap : Heap} {depth room : Nat} {value : Value}

/--
Going through a value that lies at some depth comes to an end with a result: the
values of its slots, if they are met, come to an end one level below.
-/
inductive Ends (traversal : Traversal α) (heap : Heap) : (depth : Nat) → Value → α → Prop where
  | plain
      {depth : Nat}
      {value : Value}
      (noList : value.isList = false) :
      Ends traversal heap depth value (traversal.plain value)
  | tooDeep
      {depth : Nat}
      {slots : List Cell}
      (deep : traversal.limit ≤ depth) :
      Ends traversal heap depth (.list slots) traversal.tooDeep
  | opened
      {depth : Nat}
      {slots : List Cell}
      (shallow : depth < traversal.limit)
      (result : Cell → α)
      (items : ∀ slot ∈ slots, Ends traversal heap (depth + 1) (heap.read slot) (result slot)) :
      Ends traversal heap depth (.list slots)
        (traversal.opened (slots.map fun slot => (heap.read slot, result slot)))

/-- The result of going through a value, opening at most `room` lists inside each other. -/
def run (traversal : Traversal α) (heap : Heap) : (room : Nat) → Value → α
  | 0, .list _ => traversal.tooDeep
  | room + 1, .list slots =>
      traversal.opened (slots.map fun slot =>
        (heap.read slot, run traversal heap room (heap.read slot)))
  | _, other => traversal.plain other

/-- A value that is no list is met as it is, whatever room is left. -/
theorem run_of_noList
    (noList : value.isList = false) :
    traversal.run heap room value = traversal.plain value := by
  cases value with
  | list slots => cases noList
  | none | boolean | integer | text | function => cases room <;> rfl

/-- Going through a value comes to an end with the result that the room allows. -/
theorem ends_run
    (level : depth + room = traversal.limit) :
    traversal.Ends heap depth value (traversal.run heap room value) := by
  induction room generalizing depth value with
  | zero =>
      cases value with
      | list slots => exact .tooDeep (Nat.le_of_eq level.symm)
      | none | boolean | integer | text | function => exact .plain rfl
  | succ room inductionHypothesis =>
      cases value with
      | list slots =>
          exact .opened (by omega) _ fun slot _ => inductionHypothesis (by omega)
      | none | boolean | integer | text | function => exact .plain rfl

/-- The only result at a depth is the one that the room below it allows. -/
theorem Ends.eq_run
    {result : α}
    (ends : traversal.Ends heap depth value result)
    (level : depth + room = traversal.limit) :
    result = traversal.run heap room value := by
  induction ends generalizing room with
  | plain noList => exact (run_of_noList noList).symm
  | tooDeep deep =>
      obtain rfl : room = 0 := by omega
      rfl
  | @opened depth _ shallow result _ inductionHypothesis =>
      obtain ⟨less, rfl⟩ : ∃ less, room = less + 1 := ⟨room - 1, by omega⟩
      have below : depth + 1 + less = traversal.limit := by omega
      rw [run]
      congr 1
      apply List.map_congr_left
      intro slot isSlot
      rw [inductionHypothesis slot isSlot below]

/-- From the outermost value on, every traversal ends, and with one result only. -/
theorem ends_iff
    {result : α} :
    traversal.Ends heap 0 value result ↔ result = traversal.run heap traversal.limit value := by
  constructor
  · intro ends
    exact ends.eq_run (Nat.zero_add _)
  · rintro rfl
    exact ends_run (Nat.zero_add _)

/-- Taking a snapshot. -/
def capturing : Traversal Snapshot where
  limit := Snapshot.depthLimit
  plain := Value.snapshotWithin Heap.empty 0
  tooDeep := .list []
  opened items := .list (items.map Prod.snd)

/-- Displaying. -/
def displaying : Traversal String where
  limit := Value.depthLimit
  plain := Value.displayWithin Heap.empty 0
  tooDeep := "[...]"
  opened items := "[" ++ String.intercalate ", " (items.map Prod.snd) ++ "]"

/-- Joining; an item without a scalar is left blank. -/
def joining : Traversal String where
  limit := Value.depthLimit
  plain := Value.joinWithin Heap.empty 0
  tooDeep := ""
  opened items :=
    String.intercalate "," (items.map fun item => if item.1.hasScalar then item.2 else "")

/-- Snapshots are taken by going through lists. -/
theorem snapshotWithin_eq_run
    (heap : Heap)
    (room : Nat)
    (value : Value) :
    value.snapshotWithin heap room = capturing.run heap room value := by
  induction room generalizing value with
  | zero => cases value <;> rfl
  | succ room inductionHypothesis =>
      cases value with
      | list slots => simp [Value.snapshotWithin, run, capturing, inductionHypothesis]
      | none | boolean | integer | text | function => rfl

/-- Values are displayed by going through lists. -/
theorem displayWithin_eq_run
    (heap : Heap)
    (room : Nat)
    (value : Value) :
    value.displayWithin heap room = displaying.run heap room value := by
  induction room generalizing value with
  | zero => cases value <;> rfl
  | succ room inductionHypothesis =>
      cases value with
      | list slots =>
          simp [Value.displayWithin, run, displaying, inductionHypothesis, Function.comp_def]
      | none | boolean | integer | text | function => rfl

theorem joinWithin_eq_run
    (heap : Heap)
    (room : Nat)
    (value : Value) :
    value.joinWithin heap room = joining.run heap room value := by
  induction room generalizing value with
  | zero => cases value <;> rfl
  | succ room inductionHypothesis =>
      cases value with
      | list slots =>
          simp [Value.joinWithin, run, joining, inductionHypothesis, Function.comp_def]
      | none | boolean | integer | text | function => rfl

end Traversal

/-! ## Views of snapshots -/

namespace Snapshot

/-- The quoted text of what was captured with some room for lists. -/
def displayWithin : (room : Nat) → Snapshot → String
  | _, .none => "none"
  | _, .boolean value => Value.truthText value
  | _, .integer value => Value.integerText value
  | _, .text content => "\"" ++ content ++ "\""
  | _, .function _ => "none"
  | 0, .list _ => "[...]"
  | room + 1, .list items =>
      "[" ++ String.intercalate ", " (items.map (displayWithin room)) ++ "]"

/-- What was captured has a scalar reading. -/
def hasScalar : Snapshot → Bool
  | .none => false
  | .function _ => false
  | _ => true

/-- The joined text of what was captured with some room for lists. -/
def joinWithin : (room : Nat) → Snapshot → String
  | _, .none => "none"
  | _, .boolean value => Value.truthText value
  | _, .integer value => Value.integerText value
  | _, .text content => content
  | _, .function _ => "none"
  | 0, .list _ => ""
  | room + 1, .list items =>
      String.intercalate ","
        (items.map fun item => if item.hasScalar then joinWithin room item else "")

/-- What was captured counts as true. -/
def isTruthy : Snapshot → Bool
  | .none => false
  | .boolean value => value
  | .integer value => value ≠ 0
  | .text content => content ≠ ""
  | .list _ => true
  | .function _ => false

/-- A list was captured. -/
def isList : Snapshot → Bool
  | .list _ => true
  | _ => false

/-- The text of what was captured, as it is printed. -/
def render (snapshot : Snapshot) : String :=
  match snapshot with
  | .text content => content
  | other => other.displayWithin Value.depthLimit

/-- The scalar behind what was captured. -/
def scalar : Snapshot → Scalar
  | .none => .undefined
  | .boolean value => .boolean value
  | .integer value => .integer value
  | .text content => .text content
  | .list items => .text (joinWithin Value.depthLimit (.list items))
  | .function _ => .undefined

end Snapshot

/-! ## Views of values -/

namespace Value

variable (heap : Heap) (value : Value)

/-- A snapshot that keeps at least the lists to be shown is displayed as the value is. -/
theorem displayWithin_snapshotWithin
    {shown kept : Nat}
    (enough : shown ≤ kept) :
    (value.snapshotWithin heap kept).displayWithin shown = value.displayWithin heap shown := by
  induction shown generalizing kept value with
  | zero => cases value <;> cases kept <;> rfl
  | succ shown inductionHypothesis =>
      obtain ⟨fewer, rfl⟩ : ∃ fewer, kept = fewer + 1 := ⟨kept - 1, by omega⟩
      have fewerEnough : shown ≤ fewer := Nat.le_of_succ_le_succ enough
      cases value with
      | list slots =>
          simp [snapshotWithin, displayWithin, Snapshot.displayWithin, Function.comp_def,
            inductionHypothesis _ fewerEnough]
      | none | boolean | integer | text | function => rfl

/-- A snapshot has a scalar reading if the value has one. -/
@[simp]
theorem hasScalar_snapshotWithin
    (room : Nat) :
    (value.snapshotWithin heap room).hasScalar = value.hasScalar := by
  cases value <;> cases room <;> rfl

/-- A snapshot that keeps at least the lists to be opened is joined as the value is. -/
theorem joinWithin_snapshotWithin
    {opened kept : Nat}
    (enough : opened ≤ kept) :
    (value.snapshotWithin heap kept).joinWithin opened = value.joinWithin heap opened := by
  induction opened generalizing kept value with
  | zero => cases value <;> cases kept <;> rfl
  | succ opened inductionHypothesis =>
      obtain ⟨fewer, rfl⟩ : ∃ fewer, kept = fewer + 1 := ⟨kept - 1, by omega⟩
      have fewerEnough : opened ≤ fewer := Nat.le_of_succ_le_succ enough
      cases value with
      | list slots =>
          simp [snapshotWithin, joinWithin, Snapshot.joinWithin, Function.comp_def,
            inductionHypothesis _ fewerEnough]
      | none | boolean | integer | text | function => rfl

/-- A snapshot keeps all the lists that a text shows. -/
theorem depthLimit_le : depthLimit ≤ Snapshot.depthLimit := by
  decide

/-- The snapshot of a value tells its displayed form. -/
theorem displayWithin_snapshot :
    (value.snapshot heap).displayWithin depthLimit = value.display heap :=
  displayWithin_snapshotWithin heap value depthLimit_le

/-- The snapshot of a value tells its joined form. -/
theorem joinWithin_snapshot :
    (value.snapshot heap).joinWithin depthLimit = value.join heap :=
  joinWithin_snapshotWithin heap value depthLimit_le

/-- The snapshot of a value tells whether the value counts as true. -/
theorem isTruthy_snapshot :
    (value.snapshot heap).isTruthy = value.isTruthy := by
  cases value <;> rfl

/-- The snapshot of a value tells whether the value is a list. -/
theorem isList_snapshot :
    (value.snapshot heap).isList = value.isList := by
  cases value <;> rfl

/-- The snapshot of a value tells its printed form. -/
theorem render_snapshot :
    (value.snapshot heap).render = value.render heap := by
  cases value with
  | list slots => exact displayWithin_snapshot heap (.list slots)
  | none | boolean | integer | text | function => rfl

/-- The snapshot of a value tells the scalar behind it. -/
theorem scalar_snapshot :
    (value.snapshot heap).scalar = Scalar.ofValue heap value := by
  cases value with
  | list slots => exact congrArg Scalar.text (joinWithin_snapshot heap (.list slots))
  | none | boolean | integer | text | function => rfl

section

variable {heap otherHeap : Heap} {value other : Value}

/-- Values with the same snapshot are displayed alike. -/
theorem display_eq_of_snapshot
    (same : value.snapshot heap = other.snapshot otherHeap) :
    value.display heap = other.display otherHeap := by
  rw [← displayWithin_snapshot, same, displayWithin_snapshot]

theorem render_eq_of_snapshot
    (same : value.snapshot heap = other.snapshot otherHeap) :
    value.render heap = other.render otherHeap := by
  rw [← render_snapshot, same, render_snapshot]

theorem join_eq_of_snapshot
    (same : value.snapshot heap = other.snapshot otherHeap) :
    value.join heap = other.join otherHeap := by
  rw [← joinWithin_snapshot, same, joinWithin_snapshot]

theorem isTruthy_eq_of_snapshot
    (same : value.snapshot heap = other.snapshot otherHeap) :
    value.isTruthy = other.isTruthy := by
  rw [← isTruthy_snapshot heap, same, isTruthy_snapshot]

theorem isList_eq_of_snapshot
    (same : value.snapshot heap = other.snapshot otherHeap) :
    value.isList = other.isList := by
  rw [← isList_snapshot heap, same, isList_snapshot]

end

end Value

/-! ## Operators on what snapshots tell -/

/-- Arithmetic needs to know no more of its operands than their snapshots. -/
theorem Arithmetic.apply_eq_onScalars
    (operator : Arithmetic)
    (heap : Heap)
    (left right : Cell) :
    operator.apply heap left right =
      operator.onScalars
        ((heap.read left).snapshot heap).scalar
        ((heap.read right).snapshot heap).scalar := by
  rw [apply, Value.scalar_snapshot, Value.scalar_snapshot]

namespace Comparison

/-- Loose equality needs the cells of its operands only if both are lists. -/
theorem looselyEqual_eq
    {heap : Heap}
    {left right : Cell}
    (notLists : ((heap.read left).isList && (heap.read right).isList) = false) :
    looselyEqual heap left right =
      ((heap.read left).snapshot heap).scalar.looselyEqual
        ((heap.read right).snapshot heap).scalar := by
  rw [looselyEqual_eq_of_notLists notLists, Value.scalar_snapshot, Value.scalar_snapshot]

/-- The order of values needs to know no more of them than their snapshots. -/
theorem order?_eq
    (heap : Heap)
    (left right : Cell) :
    order? heap left right =
      ((heap.read left).snapshot heap).scalar.order?
        ((heap.read right).snapshot heap).scalar := by
  rw [order?, Value.scalar_snapshot, Value.scalar_snapshot]

variable {heap otherHeap : Heap} {left right otherLeft otherRight : Cell}

/-- Comparisons of values with the same snapshots agree, but for the equality of two lists. -/
theorem holds_eq_of_snapshots
    (operator : Comparison)
    (sameLeft :
      (heap.read left).snapshot heap = (otherHeap.read otherLeft).snapshot otherHeap)
    (sameRight :
      (heap.read right).snapshot heap = (otherHeap.read otherRight).snapshot otherHeap)
    (notLists :
      operator = .equal ∨ operator = .unequal →
        ((heap.read left).isList && (heap.read right).isList) = false) :
    operator.holds heap left right = operator.holds otherHeap otherLeft otherRight := by
  have orders : order? heap left right = order? otherHeap otherLeft otherRight := by
    rw [order?_eq, order?_eq, sameLeft, sameRight]
  have equalities
      (isEquality : operator = .equal ∨ operator = .unequal) :
      looselyEqual heap left right = looselyEqual otherHeap otherLeft otherRight := by
    have here := notLists isEquality
    have there :
        ((otherHeap.read otherLeft).isList && (otherHeap.read otherRight).isList) = false := by
      rw [← Value.isList_eq_of_snapshot sameLeft, ← Value.isList_eq_of_snapshot sameRight, here]
    rw [looselyEqual_eq here, looselyEqual_eq there, sameLeft, sameRight]
  cases operator with
  | equal => exact equalities (.inl rfl)
  | unequal => exact congrArg not (equalities (.inr rfl))
  | less | greater | atMost | atLeast => simp only [holds, orders]

end Comparison

/-! ## Snapshots tell all but identity -/

/--
Taking a snapshot of a value, displaying it and joining it come to an end in every
heap, also where lists contain themselves.  Values with the same snapshot, each in
a heap of its own, are displayed, printed and joined alike and are alike true.
Operators give the same for operands with the same snapshots, except that the
equality of two lists, which asks for one and the same cell, need not.
-/
theorem Snapshot.tells_all_but_identity :
    (∀ heap value,
      (∀ result,
        Traversal.capturing.Ends heap 0 value result ↔ result = value.snapshot heap) ∧
      (∀ result,
        Traversal.displaying.Ends heap 0 value result ↔ result = value.display heap) ∧
      ∀ result,
        Traversal.joining.Ends heap 0 value result ↔ result = value.join heap) ∧
    (∀ heap otherHeap value other,
      Value.snapshot heap value = Value.snapshot otherHeap other →
      value.display heap = other.display otherHeap ∧
      value.render heap = other.render otherHeap ∧
      value.join heap = other.join otherHeap ∧
      value.isTruthy = other.isTruthy) ∧
    ∀ heap otherHeap left right otherLeft otherRight,
      Value.snapshot heap (heap.read left) =
        Value.snapshot otherHeap (otherHeap.read otherLeft) →
      Value.snapshot heap (heap.read right) =
        Value.snapshot otherHeap (otherHeap.read otherRight) →
      (∀ operator : Arithmetic,
        operator.apply heap left right = operator.apply otherHeap otherLeft otherRight) ∧
      ∀ operator : Comparison,
        (operator = .equal ∨ operator = .unequal →
          ((heap.read left).isList && (heap.read right).isList) = false) →
        operator.holds heap left right = operator.holds otherHeap otherLeft otherRight := by
  refine ⟨?_, ?_, ?_⟩
  · intro heap value
    refine ⟨fun result => ?_, fun result => ?_, fun result => ?_⟩
    · rw [Traversal.ends_iff, Value.snapshot, Traversal.snapshotWithin_eq_run]
      rfl
    · rw [Traversal.ends_iff, Value.display, Traversal.displayWithin_eq_run]
      rfl
    · rw [Traversal.ends_iff, Value.join, Traversal.joinWithin_eq_run]
      rfl
  · intro heap otherHeap value other same
    exact ⟨Value.display_eq_of_snapshot same, Value.render_eq_of_snapshot same,
      Value.join_eq_of_snapshot same, Value.isTruthy_eq_of_snapshot same⟩
  · intro heap otherHeap left right otherLeft otherRight sameLeft sameRight
    refine ⟨fun operator => ?_, fun operator notLists => ?_⟩
    · rw [Arithmetic.apply_eq_onScalars, Arithmetic.apply_eq_onScalars, sameLeft, sameRight]
    · exact Comparison.holds_eq_of_snapshots operator sameLeft sameRight notLists

/-- A list within itself cannot be told from two lists of which each is within the other. -/
theorem Snapshot.list_within_itself_looks_like_two :
    let alone : Heap := { values := #[.list [⟨0⟩]] }
    let two : Heap := { values := #[.list [⟨1⟩], .list [⟨0⟩]] }
    Value.snapshot alone (alone.read ⟨0⟩) = Value.snapshot two (two.read ⟨0⟩) ∧
      (alone.read ⟨0⟩).display alone = (two.read ⟨0⟩).display two ∧
      Arithmetic.apply .add alone ⟨0⟩ ⟨0⟩ = Arithmetic.apply .add two ⟨0⟩ ⟨1⟩ ∧
      Comparison.holds .equal alone ⟨0⟩ ⟨0⟩ ≠ Comparison.holds .equal two ⟨0⟩ ⟨1⟩ := by
  intro alone two
  have same : Value.snapshot alone (alone.read ⟨0⟩) = Value.snapshot two (two.read ⟨0⟩) := rfl
  have sameOther : Value.snapshot alone (alone.read ⟨0⟩) = Value.snapshot two (two.read ⟨1⟩) :=
    rfl
  obtain ⟨_, views, operators⟩ := tells_all_but_identity
  refine ⟨same, (views _ _ _ _ same).1, ?_, by decide⟩
  exact (operators alone two ⟨0⟩ ⟨0⟩ ⟨0⟩ ⟨1⟩ same sameOther).1 .add

end CellScript
