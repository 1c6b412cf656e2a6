namespace CellScript.Text

/-!
# Blank characters

A character is blank when Unicode gives it the property `White_Space`.  Trimming
drops blank characters at both ends of a text and keeps everything between them.
-/

/-- The inclusive code-point ranges of the property `White_Space`, in order. -/
def blankRanges : List (Nat × Nat) :=
  [(0x09, 0x0D), (0x20, 0x20), (0x85, 0x85), (0xA0, 0xA0), (0x1680, 0x1680),
   (0x2000, 0x200A), (0x2028, 0x2029), (0x202F, 0x202F), (0x205F, 0x205F),
   (0x3000, 0x3000)]

/-- A character is blank when one of the ranges holds its code point. -/
def isBlank (character : Char) : Bool :=
  blankRanges.any fun range =>
    range.1 ≤ character.toNat && character.toNat ≤ range.2

/-- Drop the longest run of members satisfying `blank` at either end of a list. -/
def trimBy {α : Type} (blank : α → Bool) (items : List α) : List α :=
  ((items.dropWhile blank).reverse.dropWhile blank).reverse

/-- Drop the blank characters at either end of a text. -/
def trim (text : List Char) : List Char :=
  trimBy isBlank text

/-- Trimming an empty list leaves it empty. -/
@[simp]
theorem trimBy_nil
    {α : Type}
    (blank : α → Bool) :
    trimBy blank [] = [] := by
  simp [trimBy]

/-- The line feed is blank. -/
theorem isBlank_lineFeed : isBlank '\n' = true := by
  decide

/-- The space is blank. -/
theorem isBlank_space : isBlank ' ' = true := by
  decide

/-- The quotation mark is not blank, so trimming never removes one. -/
theorem isBlank_quote : isBlank '"' = false := by
  decide

end CellScript.Text
