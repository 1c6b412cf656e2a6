import CellScript.Heap.Equality
import CellScript.Proofs.IntegerTexts

namespace CellScript

/-!
# Comparisons

Equality and order of scalars are decided in different ways: equality takes truth
values for integers first, and order takes all but two texts or two integers for
numbers at once.  Where one of the operands has a scalar, the two agree all the same,
so one ordering says which of the six operators hold.  A text that reads as an
integer is compared by the number nearest to that integer.
-/

/-! ## Numbers -/

namespace Binary64

variable {number other : Binary64}

/-- Only equal numbers compare equal, as the two zeros are one number here. -/
theorem compare_eq_iff :
    number.compare other = .eq ↔ number = other := by
  rw [compare, Int.compare_eq_eq]
  cases number
  cases other
  exact mk.injEq .. |>.symm.to_iff

/-- Comparing numbers the other way round turns the order round. -/
theorem swap_compare :
    (number.compare other).swap = other.compare number :=
  Std.OrientedOrd.eq_swap.symm

/-- The order of two numbers that may not be there. -/
def compare? (number other : Option Binary64) : Option Ordering := do
  let number ← number
  let other ← other
  return number.compare other

theorem compare?_eq_iff
    {number other : Option Binary64} :
    compare? number other = some .eq ↔ ∃ same, number = some same ∧ other = some same := by
  cases number with
  | none => simp [compare?]
  | some number =>
      cases other with
      | none => simp [compare?]
      | some other =>
          have ordered : compare? (some number) (some other) = some (number.compare other) := rfl
          rw [ordered, Option.some_inj, compare_eq_iff]
          simp [eq_comm]

theorem swap_compare?
    {number other : Option Binary64} :
    (compare? number other).map Ordering.swap = compare? other number := by
  cases number with
  | none => cases other <;> rfl
  | some number =>
      cases other with
      | none => rfl
      | some other => exact congrArg some swap_compare

end Binary64

/-! ## Scalars -/

namespace Scalar

/-- Every scalar is loosely equal to itself, the undefined one too. -/
theorem looselyEqual_self
    (scalar : Scalar) :
    scalar.looselyEqual scalar = true := by
  cases scalar <;> simp [looselyEqual, integerEquals]

/-- Loose equality of scalars does not depend on which comes first. -/
theorem looselyEqual_comm
    (left right : Scalar) :
    left.looselyEqual right = right.looselyEqual left := by
  cases left <;> cases right <;> simp [looselyEqual, integerEquals, eq_comm]

/-- Ordering scalars the other way round turns the order round. -/
theorem swap_order?
    (left right : Scalar) :
    (left.order? right).map Ordering.swap = right.order? left := by
  cases left <;> cases right <;>
    first
    | exact congrArg some Std.OrientedOrd.eq_swap.symm
    | exact Binary64.swap_compare?

/-- Truth values have numbers of their own. -/
theorem ofInt64_eq_ofTruth_iff
    {value : Int64}
    {truth : Bool} :
    Binary64.ofInt64 value = Binary64.ofInt64 (ofTruth truth) ↔ value = ofTruth truth := by
  refine ⟨fun same => ?_, congrArg Binary64.ofInt64⟩
  rcases Binary64.eq_or_close_of_ofInt64_eq same with equal | ⟨-, wide, -⟩
  · exact equal
  · cases truth <;> exact absurd wide (by decide)

/-- Two scalars are equal when their order says so. -/
def Agree (left right : Scalar) : Prop :=
  left.looselyEqual right = true ↔ left.order? right = some .eq

namespace Agree

theorem symm
    {left right : Scalar}
    (agree : left.Agree right) :
    right.Agree left := by
  rw [Agree] at agree ⊢
  rw [looselyEqual_comm, agree, ← swap_order? left right]
  cases left.order? right with
  | none => simp
  | some ordering => cases ordering <;> simp

/-- Scalars that are ordered as numbers agree when they are equal as numbers. -/
theorem of_numbers
    {left right : Scalar}
    (ordered : left.order? right = Binary64.compare? left.toNumber? right.toNumber?)
    (equal : left.looselyEqual right = true ↔
      ∃ same, left.toNumber? = some same ∧ right.toNumber? = some same) :
    left.Agree right := by
  rw [Agree, ordered, Binary64.compare?_eq_iff, equal]

/-- The undefined scalar is neither equal to a defined one nor ordered with it. -/
theorem undefined_left
    {right : Scalar}
    (defined : right ≠ .undefined) :
    undefined.Agree right := by
  cases right with
  | undefined => exact absurd rfl defined
  | boolean | integer | text => exact of_numbers rfl (by simp [looselyEqual, toNumber?])

theorem undefined_right
    {left : Scalar}
    (defined : left ≠ .undefined) :
    left.Agree .undefined :=
  (undefined_left defined).symm

/-- A truth value is ordered as the number that it is equal to. -/
theorem boolean_left
    (truth : Bool)
    (right : Scalar) :
    (boolean truth).Agree right := by
  cases right with
  | undefined => exact undefined_right nofun
  | boolean other =>
      apply of_numbers rfl
      simp only [looselyEqual, toNumber?, Option.some_inj, exists_eq_left', ofInt64_eq_ofTruth_iff]
      cases truth <;> cases other <;> decide
  | integer value =>
      apply of_numbers rfl
      simp [looselyEqual, integerEquals, toNumber?, eq_comm, ← ofInt64_eq_ofTruth_iff]
  | text content =>
      apply of_numbers rfl
      simp [looselyEqual, integerEquals, integerEqualsText, toNumber?]

theorem integer_left
    (value : Int64)
    (right : Scalar) :
    (integer value).Agree right := by
  cases right with
  | undefined => exact undefined_right nofun
  | boolean truth => exact (boolean_left truth (.integer value)).symm
  | integer other =>
      have ordered :
          (integer value).order? (.integer other) = some (compare value.toInt other.toInt) := rfl
      rw [Agree, ordered, Option.some_inj, Int.compare_eq_eq, Int64.toInt_inj]
      simp [looselyEqual, integerEquals]
  | text content =>
      apply of_numbers rfl
      simp [looselyEqual, integerEquals, integerEqualsText, toNumber?]

/-- Where one of two scalars is there, equality and order agree. -/
theorem of_defined
    {left right : Scalar}
    (defined : left ≠ .undefined ∨ right ≠ .undefined) :
    left.Agree right := by
  cases left with
  | undefined => exact undefined_left (defined.resolve_left (· rfl))
  | boolean truth => exact boolean_left truth right
  | integer value => exact integer_left value right
  | text content =>
      cases right with
      | undefined => exact undefined_right nofun
      | boolean truth => exact (boolean_left truth (.text content)).symm
      | integer value => exact (integer_left value (.text content)).symm
      | text other =>
          have ordered : (text content).order? (.text other) = some (compare content other) := rfl
          rw [Agree, ordered, Option.some_inj, Std.compare_eq_iff_eq]
          simp [looselyEqual]

end Agree

/-- A value with a scalar reading has a scalar that is defined. -/
theorem ofValue_ne_undefined
    {heap : Heap}
    {value : Value}
    (hasScalar : value.hasScalar = true) :
    ofValue heap value ≠ .undefined := by
  cases value with
  | none | function => cases hasScalar
  | boolean | integer | text | list => nofun

end Scalar

/-! ## Cells -/

namespace Comparison

variable {heap : Heap} {left right : Cell}

/-- An operator holds between two things of which the first stands so to the second. -/
def accepts (operator : Comparison) (ordering : Ordering) : Bool :=
  match operator with
  | .less => ordering = .lt
  | .greater => ordering = .gt
  | .atMost => ordering ≠ .gt
  | .atLeast => ordering ≠ .lt
  | .equal => ordering = .eq
  | .unequal => ordering ≠ .eq

/-- Being one cell matters for two lists only: any other value equals itself anyway. -/
theorem looselyEqual_eq_of_notLists
    (notLists : ((heap.read left).isList && (heap.read right).isList) = false) :
    looselyEqual heap left right =
      (Scalar.ofValue heap (heap.read left)).looselyEqual
        (Scalar.ofValue heap (heap.read right)) := by
  rw [looselyEqual]
  split
  · next same => rw [same, Scalar.looselyEqual_self]
  · rw [if_neg (by simp [notLists])]

theorem looselyEqual_comm
    (heap : Heap)
    (left right : Cell) :
    looselyEqual heap left right = looselyEqual heap right left := by
  simp only [looselyEqual, eq_comm (a := left), Bool.and_comm (heap.read left).isList,
    Scalar.looselyEqual_comm (Scalar.ofValue heap (heap.read left))]

theorem swap_order?
    (heap : Heap)
    (left right : Cell) :
    (order? heap left right).map Ordering.swap = order? heap right left :=
  Scalar.swap_order? _ _

/-- The operator that says the same of two things turned round. -/
def turned : Comparison → Comparison
  | .less => .greater
  | .greater => .less
  | .atMost => .atLeast
  | .atLeast => .atMost
  | .equal => .equal
  | .unequal => .unequal

/-- Turning both the operator and its operands round changes nothing. -/
theorem holds_turned
    (operator : Comparison)
    (heap : Heap)
    (left right : Cell) :
    operator.turned.holds heap right left = operator.holds heap left right := by
  cases operator with
  | equal => exact looselyEqual_comm heap right left
  | unequal => exact congrArg not (looselyEqual_comm heap right left)
  | less | greater | atMost | atLeast =>
      simp only [turned, holds, ← swap_order? heap left right]
      cases order? heap left right with
      | none => rfl
      | some ordering => cases ordering <;> rfl

/-- Between cells that are not both lists, and not both without a scalar, one ordering decides. -/
theorem looselyEqual_iff_order?
    (notLists : ((heap.read left).isList && (heap.read right).isList) = false)
    (hasScalar : ((heap.read left).hasScalar || (heap.read right).hasScalar) = true) :
    looselyEqual heap left right = true ↔ order? heap left right = some .eq := by
  rw [looselyEqual_eq_of_notLists notLists]
  apply Scalar.Agree.of_defined
  rcases Bool.or_eq_true_iff.mp hasScalar with leftScalar | rightScalar
  · exact .inl (Scalar.ofValue_ne_undefined leftScalar)
  · exact .inr (Scalar.ofValue_ne_undefined rightScalar)

/-- Between ordered operands every operator is decided by their order. -/
theorem holds_eq_accepts
    {ordering : Ordering}
    (operator : Comparison)
    (notLists : ((heap.read left).isList && (heap.read right).isList) = false)
    (hasScalar : ((heap.read left).hasScalar || (heap.read right).hasScalar) = true)
    (ordered : order? heap left right = some ordering) :
    holds operator heap left right = operator.accepts ordering := by
  have equal : looselyEqual heap left right = decide (ordering = .eq) := by
    rw [Bool.eq_iff_iff, looselyEqual_iff_order? notLists hasScalar, ordered, Option.some_inj,
      decide_eq_true_iff]
  cases operator <;> simp [holds, accepts, ordered, equal]

/-- Structurally equal cells that hold no lists hold the same value. -/
theorem looselyEqual_of_equal?
    {fuel : Nat}
    (equal : heap.equal? fuel left right = some true)
    (notList : (heap.read left).isList = false) :
    looselyEqual heap left right = true := by
  have sameValue : heap.read left = heap.read right := by
    cases fuel with
    | zero => cases equal
    | succ fuel =>
        rw [Heap.equal?] at equal
        split at equal
        · next same => rw [same]
        · split at equal
          · next isList _ =>
              rw [isList] at notList
              cases notList
          · simpa using equal
  rw [looselyEqual_eq_of_notLists (by rw [notList, Bool.false_and]), sameValue]
  exact Scalar.looselyEqual_self _

/-- One of three things holds, and no two of them do. -/
def ExactlyOne (first second third : Bool) : Prop :=
  (first ∨ second ∨ third) ∧ ¬ (first ∧ second) ∧ ¬ (first ∧ third) ∧ ¬ (second ∧ third)

/-- Either there is no order at all, or an ordinary one. -/
theorem unordered_or_exactlyOne
    (heap : Heap)
    (left right : Cell) :
    (holds .less heap left right = false ∧
        holds .greater heap left right = false ∧
        holds .atMost heap left right = false ∧
        holds .atLeast heap left right = false) ∨
      ExactlyOne
          (holds .less heap left right)
          (holds .greater heap left right)
          (holds .atMost heap left right && holds .atLeast heap left right) ∧
        holds .atMost heap left right = !holds .greater heap left right := by
  simp only [holds]
  cases order? heap left right with
  | none => exact .inl ⟨rfl, rfl, rfl, rfl⟩
  | some ordering =>
      right
      cases ordering <;> simp [ExactlyOne]

/--
The six comparisons fit together, whatever two cells hold.  Equality does not look at
the order of its operands, and turning the operands round turns the order round.
Unless there is no order at all, exactly one of less, greater and both at most and at
least holds.  Except for two lists and for two values without a scalar, the last is
the case exactly where the cells are equal.  Equality holds between a cell and itself
and between structurally equal values that are no lists.
-/
theorem comparisons_fit_together
    (heap : Heap)
    (left right : Cell) :
    holds .equal heap left right = holds .equal heap right left ∧
    holds .unequal heap left right = !holds .equal heap left right ∧
    holds .less heap left right = holds .greater heap right left ∧
    holds .atMost heap left right = holds .atLeast heap right left ∧
    ((holds .less heap left right = false ∧
        holds .greater heap left right = false ∧
        holds .atMost heap left right = false ∧
        holds .atLeast heap left right = false) ∨
      ExactlyOne
          (holds .less heap left right)
          (holds .greater heap left right)
          (holds .atMost heap left right && holds .atLeast heap left right) ∧
        holds .atMost heap left right = !holds .greater heap left right) ∧
    (((heap.read left).isList && (heap.read right).isList) = false →
      ((heap.read left).hasScalar || (heap.read right).hasScalar) = true →
      (holds .equal heap left right = true ↔
        holds .atMost heap left right = true ∧ holds .atLeast heap left right = true)) ∧
    holds .equal heap left left = true ∧
    ∀ fuel,
      left ≠ right →
      heap.equal? fuel left right = some true →
      (heap.read left).isList = false →
      holds .equal heap left right = true := by
  refine ⟨holds_turned .equal heap right left, rfl, holds_turned .greater heap right left,
    holds_turned .atLeast heap right left, unordered_or_exactlyOne heap left right, ?_, ?_,
    fun _ _ equal notList => looselyEqual_of_equal? equal notList⟩
  · intro notLists hasScalar
    simp only [holds, looselyEqual_iff_order? notLists hasScalar]
    cases order? heap left right with
    | none => simp
    | some ordering => cases ordering <;> simp
  · simp [holds, looselyEqual]

/-- The texts of one and of a fraction that is one, and two functions alike. -/
theorem true_equals_fraction_and_function_equals_function :
    let heap : Heap :=
      { values :=
          #[.boolean true, .text " 1.0", .function ["x"] (.block []),
            .function ["x"] (.block [])] }
    (holds .equal heap ⟨0⟩ ⟨1⟩ = true ↔
        holds .atMost heap ⟨0⟩ ⟨1⟩ = true ∧ holds .atLeast heap ⟨0⟩ ⟨1⟩ = true) ∧
      holds .equal heap ⟨2⟩ ⟨3⟩ = true := by
  intro heap
  obtain ⟨-, -, -, -, -, agree, -, -⟩ := comparisons_fit_together heap ⟨0⟩ ⟨1⟩
  obtain ⟨-, -, -, -, -, -, -, alike⟩ := comparisons_fit_together heap ⟨2⟩ ⟨3⟩
  exact ⟨agree (by decide) (by decide), alike 1 (by decide) (by decide) (by decide)⟩

/-- Texts that read as integers are ordered by the numbers nearest to them. -/
theorem order?_text_integer
    {text number : Cell}
    {value other : Int64}
    (isText : (Scalar.ofValue heap (heap.read text)).isText = true)
    (reads : (Scalar.ofValue heap (heap.read text)).toInteger? = some value)
    (isInteger : heap.read number = .integer other) :
    order? heap text number =
      some ((Binary64.ofInt64 value).compare (Binary64.ofInt64 other)) := by
  have readsNumber := Scalar.toNumber?_of_toInteger? reads
  rw [order?, isInteger]
  cases scalar : Scalar.ofValue heap (heap.read text) with
  | undefined | boolean | integer =>
      rw [scalar] at isText
      cases isText
  | text content =>
      rw [scalar] at readsNumber
      have ordered :
          (Scalar.text content).order? (.integer other) =
            Binary64.compare? (Scalar.text content).toNumber? (some (Binary64.ofInt64 other)) :=
        rfl
      rw [Scalar.ofValue, ordered, readsNumber]
      rfl

/--
A text, or a list by its joined text, that arithmetic reads as an integer is compared
with an integer by the numbers nearest to the two.  This is their order as integers,
but for integers that share a nearest number, which count as equal.  Different ones
share a number only if neither fits into 53 bits and they are at most 1024 apart.
-/
theorem text_is_compared_by_nearest_number
    {text number : Cell}
    {value other : Int64}
    (isText : (Scalar.ofValue heap (heap.read text)).isText = true)
    (reads : (Scalar.ofValue heap (heap.read text)).toInteger? = some value)
    (isInteger : heap.read number = .integer other) :
    (∀ operator : Comparison,
      operator.holds heap text number =
          operator.accepts
            (if Binary64.ofInt64 value = Binary64.ofInt64 other then .eq
              else compare value.toInt other.toInt) ∧
        operator.holds heap number text =
          operator.accepts
            (if Binary64.ofInt64 value = Binary64.ofInt64 other then .eq
              else compare other.toInt value.toInt)) ∧
    (Binary64.ofInt64 value = Binary64.ofInt64 other →
      value = other ∨
        Nat.pow 2 53 ≤ value.toInt.natAbs ∧
          Nat.pow 2 53 ≤ other.toInt.natAbs ∧
          (value.toInt - other.toInt).natAbs ≤ 1024) := by
  have notLists : ((heap.read text).isList && (heap.read number).isList) = false := by
    rw [isInteger]
    exact Bool.and_false _
  have hasScalar : ((heap.read text).hasScalar || (heap.read number).hasScalar) = true := by
    rw [isInteger]
    exact Bool.or_true _
  have ordered := order?_text_integer isText reads isInteger
  have turned : order? heap number text =
      some ((Binary64.ofInt64 other).compare (Binary64.ofInt64 value)) := by
    rw [← swap_order?, ordered, Option.map_some, Binary64.swap_compare]
  refine ⟨fun operator => ⟨?_, ?_⟩, Binary64.eq_or_close_of_ofInt64_eq⟩
  · rw [holds_eq_accepts operator notLists hasScalar ordered, Binary64.compare_ofInt64]
  · rw [Bool.and_comm] at notLists
    rw [Bool.or_comm] at hasScalar
    rw [holds_eq_accepts operator notLists hasScalar turned, Binary64.compare_ofInt64]
    simp only [eq_comm]

/-- A list of one text, with a blank, a sign and leading zeros, against the integer itself. -/
theorem signed_list_is_compared_by_nearest_number :
    let heap : Heap :=
      { values := #[.text " -007", .list [⟨0⟩], .integer (-7)] }
    Comparison.equal.holds heap ⟨1⟩ ⟨2⟩ = true ∧ Comparison.less.holds heap ⟨2⟩ ⟨1⟩ = false := by
  intro heap
  have isText : (Scalar.ofValue heap (heap.read ⟨1⟩)).isText = true := by decide +kernel
  have reads : (Scalar.ofValue heap (heap.read ⟨1⟩)).toInteger? = some (-7) := by decide +kernel
  have isInteger : heap.read ⟨2⟩ = .integer (-7) := by decide +kernel
  obtain ⟨compared, -⟩ := text_is_compared_by_nearest_number isText reads isInteger
  rw [(compared .equal).1, (compared .less).2, if_pos rfl]
  exact ⟨rfl, rfl⟩

/-- An integer of 54 bits equals the text of its neighbour, which reads as another integer. -/
theorem neighbour_equals_text_of_54_bits :
    let heap : Heap :=
      { values := #[.text "9007199254740993", .integer 9007199254740992] }
    (Scalar.ofValue heap (heap.read ⟨0⟩)).toInteger? = some 9007199254740993 ∧
      heap.read ⟨1⟩ = .integer 9007199254740992 ∧
      (9007199254740993 : Int64) > 9007199254740992 ∧
      Comparison.equal.holds heap ⟨0⟩ ⟨1⟩ = true ∧
      Comparison.greater.holds heap ⟨0⟩ ⟨1⟩ = false := by
  decide +kernel

end Comparison

end CellScript
