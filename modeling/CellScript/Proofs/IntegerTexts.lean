import CellScript.Operator
import CellScript.Proofs.NearestNumbers

namespace CellScript

/-!
# Texts of integers

Arithmetic reads a text as an integer and a comparison reads it as a number.  A text
that reads as an integer reads as the number nearest to that integer.
-/

namespace Decimal

/-- A text that reads as an integer is a sign, or none, and digits. -/
theorem exists_digits_of_readInt?
    {text : List Char}
    {value : Int}
    (reads : readInt? text = some value) :
    ∃ negative digits,
      readSign text = (negative, digits) ∧
        areDigits digits = true ∧
        value = if negative then -(ofDigits digits : Int) else ofDigits digits := by
  have number
      {digits : List Char}
      {natural : Nat}
      (readsNat : readNat? digits = some natural) :
      areDigits digits = true ∧ natural = ofDigits digits := by
    rw [readNat?] at readsNat
    split at readsNat
    · next isNumber =>
        cases readsNat
        exact ⟨isNumber, rfl⟩
    · cases readsNat
  unfold readInt? at reads
  split at reads
  · next digits =>
      obtain ⟨magnitude, readsMagnitude, rfl⟩ := Option.map_eq_some_iff.mp reads
      obtain ⟨natural, readsNat, same⟩ := Option.bind_eq_some_iff.mp readsMagnitude
      cases same
      obtain ⟨isNumber, rfl⟩ := number readsNat
      exact ⟨true, digits, rfl, isNumber, rfl⟩
  · next digits =>
      obtain ⟨natural, readsNat, rfl⟩ := Option.map_eq_some_iff.mp reads
      obtain ⟨isNumber, rfl⟩ := number readsNat
      exact ⟨false, digits, rfl, isNumber, rfl⟩
  · next noMinus noPlus =>
      obtain ⟨natural, readsNat, rfl⟩ := Option.map_eq_some_iff.mp reads
      obtain ⟨isNumber, rfl⟩ := number readsNat
      refine ⟨false, text, ?_, isNumber, rfl⟩
      unfold readSign
      split
      · exact absurd rfl (noMinus _)
      · exact absurd rfl (noPlus _)
      · rfl

/-- A sign and digits are a fraction without places. -/
theorem Fraction.read?_of_digits
    {text digits : List Char}
    {negative : Bool}
    (signed : readSign text = (negative, digits))
    (isNumber : areDigits digits = true) :
    Fraction.read? text =
      some { negative, whole := digits, places := [], exponent := 0 } := by
  rw [areDigits, Bool.and_eq_true, Bool.not_eq_true', List.all_eq_true] at isNumber
  obtain ⟨nonempty, allDigits⟩ := isNumber
  have span : spanDigits digits = (digits, []) := by
    have whole : spanDigits (digits ++ []) = (digits, []) := spanDigits_append allDigits (by simp)
    rwa [List.append_nil] at whole
  simp only [Fraction.read?, signed, span, readFraction, nonempty, readExponent?]
  rfl

theorem toInt_of_toInt64?
    {value : Int}
    {word : Int64}
    (fits : toInt64? value = some word) :
    word.toInt = value := by
  rw [toInt64?] at fits
  split at fits
  · next inRange =>
      cases fits
      exact Int64.toInt_ofInt_of_le inRange.1 (Int.lt_add_one_of_le inRange.2)
  · cases fits

/-- A decimal integer is read as the binary64 number nearest to it. -/
theorem readBinary64?_of_readInt64?
    {text : List Char}
    {value : Int64}
    (reads : readInt64? text = some value) :
    readBinary64? text = some (Binary64.ofInt64 value) := by
  obtain ⟨number, readsInt, fits⟩ := Option.bind_eq_some_iff.mp reads
  obtain ⟨negative, digits, sign, isNumber, rfl⟩ := exists_digits_of_readInt? readsInt
  have same := toInt_of_toInt64? fits
  have within : ofDigits digits ≤ Binary64.power 63 := by
    have wordWithin := Binary64.natAbs_le_power value
    cases negative <;> simp [same] at wordWithin <;> exact wordWithin
  rw [readBinary64?, Fraction.read?_of_digits sign isNumber, Binary64.ofInt64_eq_signed same,
    ← Binary64.ofDecimal?_of_le negative within]
  simp [Fraction.toBinary64?, Fraction.digits, Fraction.scale]

end Decimal

namespace Scalar

/-- A text that reads as an integer reads as the number nearest to it. -/
theorem numberOfText?_of_integerOfText?
    {content : String}
    {value : Int64}
    (reads : integerOfText? content = some value) :
    numberOfText? content = some (Binary64.ofInt64 value) := by
  rw [integerOfText?] at reads
  rw [numberOfText?]
  split at reads
  · cases reads
    rw [Binary64.ofInt64_zero]
  · exact Decimal.readBinary64?_of_readInt64? reads

/-- Where arithmetic reads an integer, a comparison reads the number nearest to it. -/
theorem toNumber?_of_toInteger?
    {scalar : Scalar}
    {value : Int64}
    (reads : scalar.toInteger? = some value) :
    scalar.toNumber? = some (Binary64.ofInt64 value) := by
  cases scalar with
  | undefined => cases reads
  | boolean truth =>
      cases reads
      rfl
  | integer number =>
      cases reads
      rfl
  | text content => exact numberOfText?_of_integerOfText? reads

end Scalar

end CellScript
