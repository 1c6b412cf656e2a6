import CellScript.Text.Blank

namespace CellScript.Decimal

/-!
# Integers in decimal

Integers are written with the fewest digits and a minus sign where needed.  They
are read from one or more digits, any number of leading zeros among them, with
an optional sign in front.  A reading that leaves the range of its type fails.
-/

/-- The decimal digits of a natural number. -/
def ofNat (value : Nat) : List Char :=
  Nat.toDigits 10 value

/-- The decimal text of an integer. -/
def ofInt : Int → List Char
  | .ofNat value => ofNat value
  | .negSucc value => '-' :: ofNat (value + 1)

/--
The number that digits stand for, from the numbers of their halves, down to a
depth.  Long numbers are put together faster so than digit by digit.
-/
def ofHalves : Nat → List Char → Nat
  | 0, digits => Nat.ofDigitChars 10 digits 0
  | depth + 1, digits =>
      let half := digits.length / 2
      let high := ofHalves depth (digits.take half)
      let low := ofHalves depth (digits.drop half)
      high * Nat.pow 10 (digits.length - half) + low

/-- The most digits that are put together one by one. -/
def shortLength : Nat := 256

/-- The number that digits stand for. -/
def ofDigits (digits : List Char) : Nat :=
  if digits.length ≤ shortLength then
    ofHalves 0 digits
  else
    ofHalves (digits.length / shortLength).log2 digits

/-- One or more digits, and nothing else. -/
def areDigits (text : List Char) : Bool :=
  !text.isEmpty && text.all Char.isDigit

/-- Read a text of one or more digits. -/
def readNat? (text : List Char) : Option Nat :=
  if areDigits text then some (ofDigits text) else none

/-- Read digits after an optional sign. -/
def readInt? : List Char → Option Int
  | '-' :: digits => (readNat? digits).map fun value => -(value : Int)
  | '+' :: digits => (readNat? digits).map Int.ofNat
  | digits => (readNat? digits).map Int.ofNat

/-- An integer as a 64-bit signed one, when it is in range. -/
def toInt64? (value : Int) : Option Int64 :=
  if Int64.minValue.toInt ≤ value ∧ value ≤ Int64.maxValue.toInt then
    some (Int64.ofInt value)
  else
    none

/-- Read a 64-bit signed integer. -/
def readInt64? (text : List Char) : Option Int64 :=
  (readInt? text).bind toInt64?

/-- The greatest 64-bit unsigned integer. -/
def largestWord : Nat := Nat.pow 2 64 - 1

/-- Read a 64-bit unsigned integer, which may carry a plus sign but no minus sign. -/
def readWord? (text : List Char) : Option Nat :=
  let digits :=
    match text with
    | '+' :: digits => digits
    | digits => digits
  (readNat? digits).filter (· ≤ largestWord)

/-- Taking halves at any depth gives the number that the digits give one by one. -/
theorem ofHalves_eq
    (depth : Nat)
    (digits : List Char) :
    ofHalves depth digits = Nat.ofDigitChars 10 digits 0 := by
  induction depth generalizing digits with
  | zero => rfl
  | succ depth inductionHypothesis =>
      have joined :
          Nat.ofDigitChars 10
              (digits.take (digits.length / 2) ++ digits.drop (digits.length / 2)) 0 =
            Nat.ofDigitChars 10 digits 0 := by
        rw [List.take_append_drop]
      rw [← joined, Nat.ofDigitChars_append, Nat.ofDigitChars_eq_ofDigitChars_zero,
        List.length_drop, Nat.mul_comm]
      simp only [ofHalves, inductionHypothesis, Nat.pow_eq]

/-- The number that digits stand for is the one that they give one by one. -/
theorem ofDigits_eq
    (digits : List Char) :
    ofDigits digits = Nat.ofDigitChars 10 digits 0 := by
  simp [ofDigits, ofHalves_eq]

/-- Digits written for a natural number are one or more digits. -/
theorem areDigits_ofNat
    (value : Nat) :
    areDigits (ofNat value) = true := by
  have digits : (Nat.toDigits 10 value).all Char.isDigit = true := by
    rw [List.all_eq_true]
    intro character member
    exact Nat.isDigit_of_mem_toDigits (by decide) (by decide) member
  simp [areDigits, ofNat, digits, Nat.toDigits_ne_nil]

/-- Digits written for a natural number read back as that number. -/
theorem readNat?_ofNat
    (value : Nat) :
    readNat? (ofNat value) = some value := by
  rw [readNat?, areDigits_ofNat, ofDigits_eq, ofNat, Nat.ofDigitChars_ten_toDigits]
  rfl

/-- The first digit written for a natural number is no sign. -/
private theorem readInt?_ofNat
    (value : Nat) :
    readInt? (ofNat value) = some (Int.ofNat value) := by
  have digits : ∀ character ∈ ofNat value, character.isDigit = true := by
    intro character member
    exact Nat.isDigit_of_mem_toDigits (by decide) (by decide) member
  have read := readNat?_ofNat value
  revert digits read
  cases ofNat value with
  | nil => simp [readNat?, areDigits]
  | cons first rest =>
      intro digits read
      have firstDigit := digits first (by simp)
      have notMinus : first ≠ '-' := by
        rintro rfl
        exact absurd firstDigit (by decide)
      have notPlus : first ≠ '+' := by
        rintro rfl
        exact absurd firstDigit (by decide)
      unfold readInt?
      split
      · next same => exact absurd (List.cons.inj same).1 notMinus
      · next same => exact absurd (List.cons.inj same).1 notPlus
      · rw [read]
        rfl

/-- The text written for an integer reads back as that integer. -/
theorem readInt?_ofInt
    (value : Int) :
    readInt? (ofInt value) = some value := by
  cases value with
  | ofNat value => exact readInt?_ofNat value
  | negSucc value =>
      rw [ofInt, readInt?, readNat?_ofNat]
      rfl

/-- The integer of a 64-bit integer is in range. -/
@[simp]
theorem toInt64?_toInt
    (value : Int64) :
    toInt64? value.toInt = some value := by
  have inRange :
      Int64.minValue.toInt ≤ value.toInt ∧ value.toInt ≤ Int64.maxValue.toInt :=
    ⟨value.minValue_le_toInt, value.toInt_le⟩
  rw [toInt64?, if_pos inRange, Int64.ofInt_toInt]

/-- The text written for a 64-bit integer reads back as that integer. -/
theorem readInt64?_ofInt
    (value : Int64) :
    readInt64? (ofInt value.toInt) = some value := by
  simp [readInt64?, readInt?_ofInt]

end CellScript.Decimal
