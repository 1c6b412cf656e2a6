import CellScript.Numeral.Real

namespace CellScript

/-!
# Integers as binary64 numbers

A number keeps the leading 53 bits of an integer.  Rounding keeps integers in
order, so the numbers nearest to two integers are never the wrong way round.  They
can be one number, but only where neither integer fits into 53 bits, and there only
for integers that lie close together.
-/

namespace Binary64

/-! ## Rounding -/

/-- A rounded quotient is off by one half at most. -/
theorem roundQuotient_near
    (numerator : Nat)
    {denominator : Nat}
    (positive : 0 < denominator) :
    2 * numerator ≤ 2 * (roundQuotient numerator denominator * denominator) + denominator ∧
      2 * (roundQuotient numerator denominator * denominator) ≤ 2 * numerator + denominator := by
  have division := Nat.div_add_mod numerator denominator
  have remainderLt := Nat.mod_lt numerator positive
  rw [Nat.mul_comm] at division
  simp only [roundQuotient]
  split
  · omega
  · split
    · rw [Nat.add_mul]
      omega
    · rcases Nat.mod_two_eq_zero_or_one (numerator / denominator) with even | odd
      · rw [even, Nat.add_zero]
        omega
      · rw [odd, Nat.add_mul]
        omega

/-- Rounding keeps the order of quotients. -/
theorem roundQuotient_mono
    {smaller greater denominator : Nat}
    (positive : 0 < denominator)
    (ordered : smaller ≤ greater) :
    roundQuotient smaller denominator ≤ roundQuotient greater denominator := by
  -- Results the wrong way round would each be off by one half, towards each other.
  refine Nat.le_of_not_lt fun reversed => ?_
  have apart :
      roundQuotient greater denominator * denominator + denominator ≤
        roundQuotient smaller denominator * denominator := by
    rw [← Nat.succ_mul]
    exact Nat.mul_le_mul_right denominator reversed
  have smallerNear := (roundQuotient_near smaller positive).2
  have greaterNear := (roundQuotient_near greater positive).1
  have same : smaller = greater := by omega
  rw [same] at reversed
  exact Nat.lt_irrefl _ reversed

/-- Rounding does not go beyond an integer that the quotient does not exceed. -/
theorem roundQuotient_le
    {numerator denominator bound : Nat}
    (positive : 0 < denominator)
    (within : numerator ≤ bound * denominator) :
    roundQuotient numerator denominator ≤ bound := by
  rw [← roundQuotient_mul bound positive]
  exact roundQuotient_mono positive within

theorem le_roundQuotient
    {numerator denominator bound : Nat}
    (positive : 0 < denominator)
    (reaches : bound * denominator ≤ numerator) :
    bound ≤ roundQuotient numerator denominator := by
  rw [← roundQuotient_mul bound positive]
  exact roundQuotient_mono positive reaches

/-- How many low bits of some units are rounded away. -/
def spare (units : Nat) : Nat :=
  units.log2 - 52

/-- Units rounded to their leading 53 bits. -/
def roundUnits (units : Nat) : Nat :=
  roundQuotient units (power (spare units)) * power (spare units)

/-- A whole number is rounded in units. -/
theorem nearestUnits_one
    (value : Nat) :
    nearestUnits value 1 = roundUnits (value * one) := by
  simp only [nearestUnits, Nat.div_one, Nat.one_mul]
  rfl

/-- Rounding changes units by half of the last bit that is left, at most. -/
theorem roundUnits_near
    (units : Nat) :
    2 * units ≤ 2 * roundUnits units + power (spare units) ∧
      2 * roundUnits units ≤ 2 * units + power (spare units) :=
  roundQuotient_near units (power_pos _)

/-- Units whose low bits are zero already are left as they are. -/
theorem roundUnits_of_multiple
    {units quotient exponent : Nat}
    (multiple : units = quotient * power exponent)
    (enough : spare units ≤ exponent) :
    roundUnits units = units := by
  have split : units = quotient * power (exponent - spare units) * power (spare units) := by
    rw [Nat.mul_assoc, ← power_add, Nat.sub_add_cancel enough, ← multiple]
  rw [roundUnits]
  generalize spare units = places at split ⊢
  rw [split, roundQuotient_mul _ (power_pos places)]

theorem roundUnits_zero : roundUnits 0 = 0 :=
  roundUnits_of_multiple (Nat.zero_mul (power 0)).symm (Nat.zero_le _)

/-- A power of two has one significant bit, so it is not rounded. -/
theorem roundUnits_power
    (exponent : Nat) :
    roundUnits (power exponent) = power exponent := by
  apply roundUnits_of_multiple (Nat.one_mul (power exponent)).symm
  rw [spare, log2_power]
  exact Nat.sub_le exponent 52

/-- Rounding stays on its side of every power of two that has bits to spare. -/
theorem roundUnits_le_power
    {units exponent : Nat}
    (within : units ≤ power exponent)
    (enough : spare units ≤ exponent) :
    roundUnits units ≤ power exponent := by
  have split : power exponent = power (exponent - spare units) * power (spare units) := by
    rw [← power_add, Nat.sub_add_cancel enough]
  rw [split] at within ⊢
  exact Nat.mul_le_mul_right _ (roundQuotient_le (power_pos _) within)

/-- Units that reach a power of two still reach it when they are rounded. -/
theorem power_le_roundUnits
    {units exponent : Nat}
    (reaches : power exponent ≤ units)
    (enough : spare units ≤ exponent) :
    power exponent ≤ roundUnits units := by
  have split : power exponent = power (exponent - spare units) * power (spare units) := by
    rw [← power_add, Nat.sub_add_cancel enough]
  rw [split] at reaches ⊢
  exact Nat.mul_le_mul_right _ (le_roundQuotient (power_pos _) reaches)

theorem log2_le_log2
    {smaller greater : Nat}
    (nonzero : smaller ≠ 0)
    (ordered : smaller ≤ greater) :
    smaller.log2 ≤ greater.log2 := by
  rw [Nat.le_log2 (by omega)]
  exact Nat.le_trans (Nat.log2_self_le nonzero) ordered

theorem roundUnits_mono
    {smaller greater : Nat}
    (ordered : smaller ≤ greater) :
    roundUnits smaller ≤ roundUnits greater := by
  by_cases zero : smaller = 0
  · rw [zero, roundUnits_zero]
    exact Nat.zero_le _
  · rcases Nat.eq_or_lt_of_le (log2_le_log2 zero ordered) with same | shorter
    · have sameSpare : spare smaller = spare greater := by
        rw [spare, spare, same]
      rw [roundUnits, roundUnits, sameSpare]
      exact Nat.mul_le_mul_right _ (roundQuotient_mono (power_pos _) ordered)
    · -- The leading bit of the greater one separates the two.
      have below : smaller ≤ power greater.log2 :=
        Nat.le_trans (Nat.le_of_lt Nat.lt_log2_self) (power_le shorter)
      have above : power greater.log2 ≤ greater :=
        Nat.log2_self_le (by omega)
      have enough : spare smaller ≤ greater.log2 :=
        Nat.le_trans (Nat.sub_le _ _) (Nat.le_of_lt shorter)
      exact Nat.le_trans (roundUnits_le_power below enough)
        (power_le_roundUnits above (Nat.sub_le _ _))

/-! ## Natural numbers -/

theorem one_pos : 0 < one :=
  power_pos 1074

/-- A natural number spares the bits that it has more than 53, and those behind the point. -/
theorem spare_mul_one_le
    {value bits : Nat}
    (within : value < power (bits + 53)) :
    spare (value * one) ≤ bits + 1074 := by
  by_cases zero : value = 0
  · rw [zero, Nat.zero_mul]
    exact Nat.zero_le _
  · have nonzero : value * one ≠ 0 := Nat.mul_ne_zero zero (Nat.ne_of_gt one_pos)
    have unitsWithin : value * one < power (bits + 53 + 1074) := by
      rw [power_add, one]
      exact Nat.mul_lt_mul_of_pos_right within one_pos
    have logWithin : (value * one).log2 < bits + 53 + 1074 :=
      (Nat.log2_lt nonzero).mpr unitsWithin
    rw [spare]
    omega

theorem roundUnits_power_mul_one
    (exponent : Nat) :
    roundUnits (power exponent * one) = power exponent * one := by
  rw [one, ← power_add]
  exact roundUnits_power _

/-- Natural numbers of up to 53 bits, and the next one, are numbers themselves. -/
theorem roundUnits_of_small
    {value : Nat}
    (small : value ≤ power 53) :
    roundUnits (value * one) = value * one := by
  rcases Nat.eq_or_lt_of_le small with rfl | smaller
  · exact roundUnits_power_mul_one 53
  · have enough : spare (value * one) ≤ 0 + 1074 := spare_mul_one_le smaller
    rw [Nat.zero_add] at enough
    exact roundUnits_of_multiple rfl enough

/-- The number nearest to a natural number of up to 63 bits is off by 512 at most. -/
theorem roundUnits_near_of_le
    {value : Nat}
    (within : value ≤ power 63) :
    value * one ≤ roundUnits (value * one) + 512 * one ∧
      roundUnits (value * one) ≤ value * one + 512 * one := by
  rcases Nat.eq_or_lt_of_le within with rfl | smaller
  · rw [roundUnits_power_mul_one]
    exact ⟨Nat.le_add_right _ _, Nat.le_add_right _ _⟩
  · have enough : spare (value * one) ≤ 10 + 1074 := spare_mul_one_le smaller
    have gap : power (spare (value * one)) ≤ 1024 * one := by
      have tenBits : power 10 = 1024 := rfl
      have widest := power_le enough
      rwa [power_add, tenBits, ← one] at widest
    have near := roundUnits_near (value * one)
    omega

/-! ## Integers -/

/-- The units of the number nearest to an integer. -/
def unitsOf (value : Int) : Int :=
  if value < 0 then
    -(roundUnits (value.natAbs * one) : Int)
  else
    roundUnits (value.natAbs * one)

/-- The number nearest to a 64-bit integer has the units nearest to it. -/
theorem units_ofInt64
    (value : Int64) :
    (ofInt64 value).units = unitsOf value.toInt := by
  simp only [ofInt64, signed, unitsOf, nearestUnits_one, decide_eq_true_eq]

/-- A greater integer never has a smaller number nearest to it. -/
theorem unitsOf_mono
    {smaller greater : Int}
    (ordered : smaller ≤ greater) :
    unitsOf smaller ≤ unitsOf greater := by
  have sameSide {value other : Nat} (within : value ≤ other) :
      roundUnits (value * one) ≤ roundUnits (other * one) :=
    roundUnits_mono (Nat.mul_le_mul_right one within)
  simp only [unitsOf]
  by_cases smallerNegative : smaller < 0
  · by_cases greaterNegative : greater < 0
    · have magnitudes := sameSide (show greater.natAbs ≤ smaller.natAbs by omega)
      simp only [smallerNegative, greaterNegative, if_true]
      omega
    · simp only [smallerNegative, greaterNegative, if_true, if_false]
      omega
  · have greaterNonneg : ¬ greater < 0 := by omega
    have magnitudes := sameSide (show smaller.natAbs ≤ greater.natAbs by omega)
    simp only [smallerNegative, greaterNonneg, if_false]
    omega

/-- Integers of at most 53 bits are not rounded. -/
theorem unitsOf_of_small
    {value : Int}
    (small : value.natAbs ≤ power 53) :
    unitsOf value = value * one := by
  rw [unitsOf, roundUnits_of_small small, Int.natCast_mul]
  split
  · have magnitude : -(value.natAbs : Int) = value := by omega
    rw [← Int.neg_mul, magnitude]
  · have magnitude : (value.natAbs : Int) = value := by omega
    rw [magnitude]

/-- An integer that fits into 53 bits has a number of its own. -/
theorem unitsOf_lt
    {smaller greater : Int}
    (ordered : smaller < greater)
    (small : smaller.natAbs < power 53 ∨ greater.natAbs < power 53) :
    unitsOf smaller < unitsOf greater := by
  have onePos : (0 : Int) < one := Int.natCast_pos.mpr one_pos
  rcases small with smallerFits | greaterFits
  · have next : unitsOf (smaller + 1) ≤ unitsOf greater := unitsOf_mono ordered
    have above : unitsOf (smaller + 1) = (smaller + 1) * one := unitsOf_of_small (by omega)
    rw [above, Int.add_mul, Int.one_mul] at next
    rw [unitsOf_of_small (Nat.le_of_lt smallerFits)]
    omega
  · have next : unitsOf smaller ≤ unitsOf (greater - 1) := unitsOf_mono (by omega)
    have below : unitsOf (greater - 1) = (greater - 1) * one := unitsOf_of_small (by omega)
    rw [below, Int.sub_mul, Int.one_mul] at next
    rw [unitsOf_of_small (Nat.le_of_lt greaterFits)]
    omega

/-- The number nearest to a 64-bit integer is at most 512 away from it. -/
theorem unitsOf_near
    {value : Int}
    (within : value.natAbs ≤ power 63) :
    value * one ≤ unitsOf value + 512 * one ∧ unitsOf value ≤ value * one + 512 * one := by
  have near := roundUnits_near_of_le within
  have product : ((value.natAbs * one : Nat) : Int) = value.natAbs * one :=
    Int.natCast_mul _ _
  rw [unitsOf]
  split
  · have magnitude : (value.natAbs : Int) = -value := by omega
    rw [magnitude, Int.neg_mul] at product
    omega
  · have magnitude : (value.natAbs : Int) = value := by omega
    rw [magnitude] at product
    omega

/-- Integers that share a number lie close together. -/
theorem natAbs_sub_le_of_unitsOf_eq
    {value other : Int}
    (within : value.natAbs ≤ power 63)
    (otherWithin : other.natAbs ≤ power 63)
    (same : unitsOf value = unitsOf other) :
    (value - other).natAbs ≤ 1024 := by
  have onePos : (0 : Int) < one := Int.natCast_pos.mpr one_pos
  have near := unitsOf_near within
  have otherNear := unitsOf_near otherWithin
  have notFarAbove : value - other ≤ 1024 := by
    refine Int.le_of_mul_le_mul_right ?_ onePos
    rw [Int.sub_mul]
    omega
  have notFarBelow : other - value ≤ 1024 := by
    refine Int.le_of_mul_le_mul_right ?_ onePos
    rw [Int.sub_mul]
    omega
  omega

/-! ## Integers of 64 bits -/

/-- The magnitude of a 64-bit integer is at most 2 to the power 63. -/
theorem natAbs_le_power
    (value : Int64) :
    value.toInt.natAbs ≤ power 63 := by
  have above := value.minValue_le_toInt
  have below := value.toInt_le
  have bits : power 63 = 9223372036854775808 := rfl
  have least : Int64.minValue.toInt = -9223372036854775808 := rfl
  have greatest : Int64.maxValue.toInt = 9223372036854775807 := rfl
  omega

/-- Integers have the same nearest number if and only if its units are the same. -/
theorem ofInt64_eq_iff
    {value other : Int64} :
    ofInt64 value = ofInt64 other ↔ unitsOf value.toInt = unitsOf other.toInt := by
  rw [← units_ofInt64, ← units_ofInt64]
  generalize ofInt64 value = first
  generalize ofInt64 other = second
  cases first
  cases second
  exact mk.injEq ..|>.to_iff

/-- Different integers share a number only if both are wide, and then they lie close together. -/
theorem eq_or_close_of_ofInt64_eq
    {value other : Int64}
    (same : ofInt64 value = ofInt64 other) :
    value = other ∨
      power 53 ≤ value.toInt.natAbs ∧
        power 53 ≤ other.toInt.natAbs ∧
        (value.toInt - other.toInt).natAbs ≤ 1024 := by
  rw [ofInt64_eq_iff] at same
  have wide
      (small : value.toInt.natAbs < power 53 ∨ other.toInt.natAbs < power 53) :
      value.toInt = other.toInt := by
    rcases Int.lt_trichotomy value.toInt other.toInt with less | equal | greater
    · have differ := unitsOf_lt less small
      omega
    · exact equal
    · have differ := unitsOf_lt greater small.symm
      omega
  by_cases small : value.toInt.natAbs < power 53 ∨ other.toInt.natAbs < power 53
  · exact .inl (Int64.toInt_inj.mp (wide small))
  · have close :=
      natAbs_sub_le_of_unitsOf_eq (natAbs_le_power value) (natAbs_le_power other) same
    exact .inr ⟨by omega, by omega, close⟩

/-- Numbers nearest to integers are in the order of the integers, unless they are the same. -/
theorem compare_ofInt64
    (value other : Int64) :
    (ofInt64 value).compare (ofInt64 other) =
      if ofInt64 value = ofInt64 other then .eq
      else Ord.compare value.toInt other.toInt := by
  rw [compare, units_ofInt64, units_ofInt64]
  split
  · next same =>
      rw [Int.compare_eq_eq, ← ofInt64_eq_iff]
      exact same
  · next differ =>
      rw [ofInt64_eq_iff] at differ
      rcases Int.lt_trichotomy value.toInt other.toInt with less | equal | greater
      · have ordered := unitsOf_mono (Int.le_of_lt less)
        rw [Int.compare_eq_lt.mpr less, Int.compare_eq_lt]
        omega
      · rw [equal] at differ
        exact absurd rfl differ
      · have ordered := unitsOf_mono (Int.le_of_lt greater)
        rw [Int.compare_eq_gt.mpr greater, Int.compare_eq_gt]
        omega

/-- Natural numbers that fit into 64 bits do not overflow. -/
theorem ofDecimal?_of_le
    {digits : Nat}
    (negative : Bool)
    (within : digits ≤ power 63) :
    ofDecimal? negative digits 0 = some (signed negative (roundUnits (digits * one))) := by
  by_cases zero : digits = 0
  · rw [zero, Nat.zero_mul, roundUnits_zero]
    cases negative <;> rfl
  · have short : digits.log2 ≤ 63 := by
      rw [← log2_power 63]
      exact log2_le_log2 zero within
    have finite : roundUnits (digits * one) < overflow :=
      calc
        roundUnits (digits * one) ≤ roundUnits (power 63 * one) :=
          roundUnits_mono (Nat.mul_le_mul_right one within)
        _ = power (63 + 1074) := by rw [roundUnits_power_mul_one, one, ← power_add]
        _ < overflow := power_lt (by decide)
    have noOverflow : ¬ (1024 : Int) ≤ digits.log2 + 3 * 0 := by omega
    have times : digits * Nat.pow 10 (0 : Int).toNat = digits := Nat.mul_one digits
    simp only [ofDecimal?, zero, noOverflow, Int.le_refl, if_false, if_true, ofQuotient?, times,
      nearestUnits_one, finite]

/-- The number nearest to an integer is that of its digits, with its sign. -/
theorem ofInt64_eq_signed
    {value : Int64}
    {negative : Bool}
    {digits : Nat}
    (same : value.toInt = if negative then -(digits : Int) else digits) :
    ofInt64 value = signed negative (roundUnits (digits * one)) := by
  have magnitude : value.toInt.natAbs = digits := by
    cases negative <;> simp [same]
  rw [ofInt64, nearestUnits_one, magnitude]
  by_cases zero : digits = 0
  · rw [zero, Nat.zero_mul, roundUnits_zero]
    simp [signed]
  · congr 1
    cases negative with
    | false => simp [same]
    | true =>
        simp only [same, if_true, decide_eq_true_eq]
        omega

theorem ofInt64_zero : ofInt64 0 = zero := by
  have same : (0 : Int64).toInt = if false then -((0 : Nat) : Int) else (0 : Nat) := rfl
  rw [ofInt64_eq_signed same, Nat.zero_mul, roundUnits_zero]
  rfl

end Binary64

end CellScript
