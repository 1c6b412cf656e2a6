import CellScript.Numeral.Decimal
import CellScript.Numeral.Binary64

namespace CellScript.Decimal

/-!
# Decimal fractions

A decimal fraction is an optional sign, digits with at most one point among or
around them, and an optional exponent.  It has at least one digit outside the
exponent, and an exponent has at least one digit.  It reads as the nearest
binary64 number; a fraction too large for a finite one does not read.  An
exponent grows only up to a limit: the digits of one that has reached the limit
are read but not counted.
-/

/-- A decimal fraction: the digits before and behind the point, times a power of ten. -/
structure Fraction where
  negative : Bool
  whole : List Char
  places : List Char
  exponent : Int
  deriving Repr, DecidableEq

/-- The digits of a fraction as one integer. -/
def Fraction.digits (fraction : Fraction) : Nat :=
  ofDigits (fraction.whole ++ fraction.places)

/-- The power of ten of the last digit of a fraction. -/
def Fraction.scale (fraction : Fraction) : Int :=
  fraction.exponent - fraction.places.length

/-- The fraction without places that is a natural number. -/
def Fraction.ofNat (value : Nat) : Fraction :=
  { negative := false, whole := Decimal.ofNat value, places := [], exponent := 0 }

/-- Cut a list behind its longest run of digits. -/
def spanDigits (text : List Char) : List Char × List Char :=
  (text.takeWhile Char.isDigit, text.dropWhile Char.isDigit)

/-- Digits are read up to the first other character. -/
theorem spanDigits_append
    {digits rest : List Char}
    (areDigits : ∀ character ∈ digits, character.isDigit = true)
    (stops : ∀ character ∈ rest.head?, character.isDigit = false) :
    spanDigits (digits ++ rest) = (digits, rest) := by
  have restStops :
      rest.takeWhile Char.isDigit = [] ∧ rest.dropWhile Char.isDigit = rest := by
    cases rest with
    | nil => exact ⟨rfl, rfl⟩
    | cons first more =>
        have noDigit := stops first rfl
        simp [noDigit]
  rw [spanDigits, List.takeWhile_append_of_pos areDigits, List.dropWhile_append_of_pos areDigits,
    restStops.1, restStops.2, List.append_nil]

/-- Read the sign of a number: whether it is negative, and what follows. -/
def readSign : List Char → Bool × List Char
  | '-' :: rest => (true, rest)
  | '+' :: rest => (false, rest)
  | rest => (false, rest)

/-- The size at which an exponent stops growing. -/
def exponentLimit : Nat := Nat.pow 2 16

/-- Put a digit behind an exponent, unless that has reached the limit. -/
def growExponent (exponent : Nat) (digit : Char) : Nat :=
  if exponent < exponentLimit then
    Nat.ofDigitChars 10 [digit] exponent
  else
    exponent

/-- Read an exponent that must end the text; the empty text is the exponent zero. -/
def readExponent? : List Char → Option Int
  | [] => some 0
  | marker :: rest =>
      if marker = 'e' ∨ marker = 'E' then
        let (negative, digits) := readSign rest
        if areDigits digits then
          let size := digits.foldl growExponent 0
          some (if negative then -(size : Int) else size)
        else
          none
      else
        none

/-- Read the digits behind the point: those digits, and what follows. -/
def readFraction : List Char → List Char × List Char
  | '.' :: rest => spanDigits rest
  | rest => ([], rest)

/-- Read a decimal fraction. -/
def Fraction.read? (text : List Char) : Option Fraction :=
  let (negative, unsigned) := readSign text
  let (whole, afterWhole) := spanDigits unsigned
  let (behindPoint, afterPoint) := readFraction afterWhole
  if whole.isEmpty && behindPoint.isEmpty then
    none
  else
    (readExponent? afterPoint).map fun exponent =>
      { negative, whole, places := behindPoint, exponent }

/-- The binary64 number nearest to a fraction. -/
def Fraction.toBinary64? (fraction : Fraction) : Option Binary64 :=
  Binary64.ofDecimal? fraction.negative fraction.digits fraction.scale

/-- Read a decimal fraction as the nearest binary64 number. -/
def readBinary64? (text : List Char) : Option Binary64 :=
  (Fraction.read? text).bind Fraction.toBinary64?

end CellScript.Decimal
