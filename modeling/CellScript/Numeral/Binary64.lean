namespace CellScript

/-!
# Binary64 numbers

A finite number of the 64-bit binary format is an integral multiple of the
least positive one, 2 to the power -1074.  Holding that multiple makes the order
of numbers the order of integers, and makes the two zeros one number, as they
are in every comparison.
-/

/-- A finite binary64 number, counted in units of 2 to the power -1074. -/
structure Binary64 where
  units : Int
  deriving Repr, DecidableEq

namespace Binary64

/-- The quotient of two natural numbers rounded to an integer, halves to the even one. -/
def roundQuotient (numerator denominator : Nat) : Nat :=
  let quotient := numerator / denominator
  let remainder := numerator % denominator
  if 2 * remainder < denominator then
    quotient
  else if denominator < 2 * remainder then
    quotient + 1
  else
    quotient + quotient % 2

/-- A quotient without remainder is not changed by rounding. -/
theorem roundQuotient_mul
    (quotient : Nat)
    {denominator : Nat}
    (positive : 0 < denominator) :
    roundQuotient (quotient * denominator) denominator = quotient := by
  simp [roundQuotient, Nat.mul_div_cancel quotient positive, positive]

/-- A power of two. -/
def power (exponent : Nat) : Nat :=
  Nat.pow 2 exponent

/-- No power of two is zero. -/
theorem power_pos
    (exponent : Nat) :
    0 < power exponent :=
  Nat.two_pow_pos exponent

/-- Exponents add up where powers are multiplied. -/
theorem power_add
    (exponent other : Nat) :
    power (exponent + other) = power exponent * power other :=
  Nat.pow_add 2 exponent other

theorem power_le
    {exponent greater : Nat}
    (ordered : exponent ≤ greater) :
    power exponent ≤ power greater :=
  Nat.pow_le_pow_right (by decide) ordered

theorem power_lt
    {exponent greater : Nat}
    (ordered : exponent < greater) :
    power exponent < power greater :=
  Nat.pow_lt_pow_right (by decide) ordered

/-- The position of the leading bit of a power of two is its exponent. -/
theorem log2_power
    (exponent : Nat) :
    (power exponent).log2 = exponent :=
  Nat.log2_two_pow

/-- The number one in units. -/
def one : Nat := power 1074

/-- The least number of units that is too large for a finite number. -/
def overflow : Nat := power (1024 + 1074)

/--
The units nearest to a quotient.  A number has at most 53 significant bits, so
everything below the leading 53 bits of the quotient in units is rounded away.
-/
def nearestUnits (numerator denominator : Nat) : Nat :=
  let scaled := numerator * one
  let spare := (scaled / denominator).log2 - 52
  roundQuotient scaled (denominator * power spare) * power spare

/-- Give units a sign. -/
def signed (negative : Bool) (units : Nat) : Binary64 :=
  ⟨if negative then -(units : Int) else units⟩

/-- The number zero. -/
def zero : Binary64 := ⟨0⟩

/-- The number nearest to a quotient, unless that is not finite. -/
def ofQuotient? (negative : Bool) (numerator denominator : Nat) : Option Binary64 :=
  let units := nearestUnits numerator denominator
  if units < overflow then some (signed negative units) else none

/-- The number nearest to a 64-bit integer, which is always finite. -/
def ofInt64 (value : Int64) : Binary64 :=
  signed (value.toInt < 0) (nearestUnits value.toInt.natAbs 1)

/--
The number nearest to `digits` times ten to the power `exponent`, unless that is
not finite.  Powers that could only overflow, or only vanish, are not computed:
ten to a power is at least as far from one as eight to that power.
-/
def ofDecimal? (negative : Bool) (digits : Nat) (exponent : Int) : Option Binary64 :=
  if digits = 0 then
    some zero
  else if 0 ≤ exponent then
    if 1024 ≤ digits.log2 + 3 * exponent then
      none
    else
      ofQuotient? negative (digits * Nat.pow 10 exponent.toNat) 1
  else if digits.log2 + 3 * exponent ≤ -1076 then
    some zero
  else
    ofQuotient? negative digits (Nat.pow 10 (-exponent).toNat)

/-- The number nearest to a product, unless that is not finite. -/
def times? (left right : Binary64) : Option Binary64 :=
  let product := left.units * right.units
  ofQuotient? (product < 0) product.natAbs (one * one)

/-- The order of numbers is the order of their units. -/
def compare (left right : Binary64) : Ordering :=
  Ord.compare left.units right.units

end Binary64

end CellScript
