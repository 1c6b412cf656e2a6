import CellScript.Numeral.Real

namespace CellScript.Decimal

/-!
# Decimal fractions read in steps

A quicker way to read a fraction gathers its digits into a 64-bit word for as
long as they fit, rounds the word to a binary64 number, and multiplies that by a
power of ten which has been rounded, too.  The result need not be the nearest
number, so that near the greatest number a fraction may be finite in one way of
reading and not in the other.
-/

/-- Put digits behind a word for as long as they fit; the other digits are left. -/
def gather (word : Nat) : List Char → Nat × List Char
  | [] => (word, [])
  | digit :: rest =>
      let longer := Nat.ofDigitChars 10 [digit] word
      if longer ≤ largestWord then
        gather longer rest
      else
        (word, digit :: rest)

namespace Fraction

/--
The word of a fraction and its power of ten.  Each digit left in front of the
point raises the power, and each one gathered behind the point lowers it.
-/
def inSteps (fraction : Fraction) : Nat × Int :=
  let (front, wholeLeft) := gather 0 fraction.whole
  let (word, placesLeft) := gather front fraction.places
  let placesTaken : Int := fraction.places.length - placesLeft.length
  (word, fraction.exponent + wholeLeft.length - placesTaken)

/-- Reading a fraction in steps gives a finite number; only a rising power can prevent that. -/
def isFiniteInSteps (fraction : Fraction) : Bool :=
  match fraction.inSteps with
  | (0, _) => true
  | (_, .negSucc _) => true
  | (word, .ofNat exponent) =>
      let product := do
        let number ← Binary64.ofDecimal? false word 0
        let power ← Binary64.ofDecimal? false 1 exponent
        number.times? power
      product.isSome

end Fraction

end CellScript.Decimal
