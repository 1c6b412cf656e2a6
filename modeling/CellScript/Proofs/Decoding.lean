import CellScript.Text.Utf8

namespace CellScript.Text

/-!
# Reading encoded text

A character is encoded as one byte to four.  The first one leaves open how many
are still to come and what the next one may be, and it does so in a way that fits
the bytes which follow it in the encoding.  So bytes that encode a text are read as
that text, with no replacement characters.
-/

variable {byte : UInt8} {rest : List UInt8}

/-! ## One byte after the other -/

theorem readBytes_ascii
    (small : byte.toNat < 0x80) :
    readBytes none (byte :: rest) = Char.ofNat byte.toNat :: readBytes none rest := by
  simp [readBytes, readByte, readLead, small]

/-- A lead byte opens a character that the bytes after it have to end. -/
theorem readBytes_lead
    {unfinished : Unfinished}
    (large : 0x80 ≤ byte.toNat)
    (isLead : Unfinished.ofLead? byte.toNat = some unfinished) :
    readBytes none (byte :: rest) = readBytes (some unfinished) rest := by
  simp [readBytes, readByte, readLead, Nat.not_lt.mpr large, isLead]

variable {owed low high code bits : Nat}

/-- A byte that continues a character and is not its last one. -/
theorem readBytes_continued
    (isByte : byte.toNat = bits + 0x80)
    (within : low ≤ bits + 0x80 ∧ bits + 0x80 ≤ high)
    (more : 1 < owed) :
    readBytes (some ⟨owed, low, high, code⟩) (byte :: rest) =
      readBytes (some ⟨owed - 1, 0x80, 0xBF, code * 64 + bits⟩) rest := by
  simp [readBytes, readByte, isByte, within, Nat.not_le.mpr more]

/-- The last byte of a character. -/
theorem readBytes_finished
    (isByte : byte.toNat = bits + 0x80)
    (within : low ≤ bits + 0x80 ∧ bits + 0x80 ≤ high) :
    readBytes (some ⟨1, low, high, code⟩) (byte :: rest) =
      Char.ofNat (code * 64 + bits) :: readBytes none rest := by
  simp [readBytes, readByte, isByte, within]

/-! ## First bytes -/

/-- Lead bytes from 0xC2 on open characters of two bytes. -/
theorem ofLead?_two
    (atLeast : 2 ≤ bits)
    (small : bits < 32) :
    Unfinished.ofLead? (bits + 0xC0) = some ⟨1, 0x80, 0xBF, bits⟩ := by
  rw [Unfinished.ofLead?, if_pos (by omega), Nat.add_sub_cancel]

/-- The first of three bytes allows the second one, which surrogates alone would not. -/
theorem ofLead?_three
    {second : Nat}
    (small : bits < 16)
    (smallSecond : second < 64)
    (long : 0x20 ≤ bits * 64 + second)
    (noSurrogate : bits * 64 + second < 0x360 ∨ 0x380 ≤ bits * 64 + second) :
    ∃ low high,
      Unfinished.ofLead? (bits + 0xE0) = some ⟨2, low, high, bits⟩ ∧
        low ≤ second + 0x80 ∧ second + 0x80 ≤ high := by
  have notTwo : ¬(0xC2 ≤ bits + 0xE0 ∧ bits + 0xE0 ≤ 0xDF) := by omega
  rw [Unfinished.ofLead?, if_neg notTwo, Nat.add_sub_cancel]
  by_cases first : bits = 0
  · subst first
    exact ⟨0xA0, 0xBF, rfl, by omega, by omega⟩
  · rw [if_neg (by omega)]
    by_cases surrogates : bits = 0xD
    · subst surrogates
      exact ⟨0x80, 0x9F, rfl, by omega, by omega⟩
    · rw [if_neg (by omega), if_pos (by omega)]
      exact ⟨0x80, 0xBF, rfl, by omega, by omega⟩

/-- The first of four bytes allows the second one, which other numbers alone would not. -/
theorem ofLead?_four
    {second : Nat}
    (smallSecond : second < 64)
    (long : 0x10 ≤ bits * 64 + second)
    (isCode : bits * 64 + second < 0x110) :
    ∃ low high,
      Unfinished.ofLead? (bits + 0xF0) = some ⟨3, low, high, bits⟩ ∧
        low ≤ second + 0x80 ∧ second + 0x80 ≤ high := by
  rw [Unfinished.ofLead?, if_neg (by omega), if_neg (by omega), if_neg (by omega),
    if_neg (by omega), Nat.add_sub_cancel]
  by_cases first : bits = 0
  · subst first
    exact ⟨0x90, 0xBF, rfl, by omega, by omega⟩
  · rw [if_neg (by omega)]
    by_cases last : bits = 4
    · subst last
      exact ⟨0x80, 0x8F, rfl, by omega, by omega⟩
    · rw [if_pos (by omega)]
      exact ⟨0x80, 0xBF, rfl, by omega, by omega⟩

/-! ## Encoded characters -/

section

variable {code : Nat}

theorem toNat_ofNat_of_lt
    {value : Nat}
    (small : value < 256) :
    (UInt8.ofNat value).toNat = value := by
  rw [UInt8.toNat_ofNat', Nat.mod_eq_of_lt small]

/-- A byte that continues a character carries six of its bits. -/
theorem toNat_continuing
    (code : Nat) :
    (UInt8.ofNat (code % 64 + 128)).toNat = code % 64 + 0x80 ∧
      0x80 ≤ code % 64 + 0x80 ∧ code % 64 + 0x80 ≤ 0xBF :=
  ⟨toNat_ofNat_of_lt (by omega), by omega, by omega⟩

/-- The two bytes of a character beyond ASCII are read as this character. -/
theorem readBytes_two
    (long : 0x7F < code)
    (short : code ≤ 0x7FF) :
    readBytes none
        (UInt8.ofNat (code / 64 % 32 + 192) :: UInt8.ofNat (code % 64 + 128) :: rest) =
      Char.ofNat code :: readBytes none rest := by
  have isLead : (UInt8.ofNat (code / 64 % 32 + 192)).toNat = code / 64 + 0xC0 :=
    (toNat_ofNat_of_lt (by omega)).trans (by omega)
  have lead := ofLead?_two (show 2 ≤ code / 64 by omega) (by omega)
  obtain ⟨isLast, lastWithin⟩ := toNat_continuing code
  rw [readBytes_lead (by omega) (isLead ▸ lead), readBytes_finished isLast lastWithin]
  congr 2
  omega

theorem readBytes_three
    (long : 0x7FF < code)
    (short : code ≤ 0xFFFF)
    (noSurrogate : code < 0xD800 ∨ 0xDFFF < code) :
    readBytes none
        (UInt8.ofNat (code / 4096 % 16 + 224) :: UInt8.ofNat (code / 64 % 64 + 128) ::
          UInt8.ofNat (code % 64 + 128) :: rest) =
      Char.ofNat code :: readBytes none rest := by
  have isLead : (UInt8.ofNat (code / 4096 % 16 + 224)).toNat = code / 4096 + 0xE0 :=
    (toNat_ofNat_of_lt (by omega)).trans (by omega)
  obtain ⟨low, high, lead, within⟩ :=
    ofLead?_three (show code / 4096 < 16 by omega) (show code / 64 % 64 < 64 by omega)
      (by omega) (by omega)
  obtain ⟨isSecond, -⟩ := toNat_continuing (code / 64)
  obtain ⟨isLast, lastWithin⟩ := toNat_continuing code
  rw [readBytes_lead (by omega) (isLead ▸ lead), readBytes_continued isSecond within (by decide),
    readBytes_finished isLast lastWithin]
  congr 2
  omega

/-- The four bytes of a character beyond the basic plane are read as this character. -/
theorem readBytes_four
    (long : 0xFFFF < code)
    (isCode : code < 0x110000) :
    readBytes none
        (UInt8.ofNat (code / 262144 % 8 + 240) :: UInt8.ofNat (code / 4096 % 64 + 128) ::
          UInt8.ofNat (code / 64 % 64 + 128) :: UInt8.ofNat (code % 64 + 128) :: rest) =
      Char.ofNat code :: readBytes none rest := by
  have isLead : (UInt8.ofNat (code / 262144 % 8 + 240)).toNat = code / 262144 + 0xF0 :=
    (toNat_ofNat_of_lt (by omega)).trans (by omega)
  obtain ⟨low, high, lead, within⟩ :=
    ofLead?_four (show code / 4096 % 64 < 64 by omega)
      (show 0x10 ≤ code / 262144 * 64 + code / 4096 % 64 by omega) (by omega)
  obtain ⟨isSecond, -⟩ := toNat_continuing (code / 4096)
  obtain ⟨isThird, thirdWithin⟩ := toNat_continuing (code / 64)
  obtain ⟨isLast, lastWithin⟩ := toNat_continuing code
  rw [readBytes_lead (by omega) (isLead ▸ lead), readBytes_continued isSecond within (by decide),
    readBytes_continued isThird thirdWithin (by decide), readBytes_finished isLast lastWithin]
  congr 2
  omega

end

/-- The bytes of a character are read as that character. -/
theorem readBytes_utf8EncodeChar
    (character : Char)
    (rest : List UInt8) :
    readBytes none (String.utf8EncodeChar character ++ rest) =
      character :: readBytes none rest := by
  have valid : character.val.toNat < 0xD800 ∨
      0xDFFF < character.val.toNat ∧ character.val.toNat < 0x110000 := character.valid
  have ofCode : Char.ofNat character.val.toNat = character := Char.ofNat_toNat character
  rw [String.utf8EncodeChar]
  generalize character.val.toNat = code at valid ofCode ⊢
  rw [← ofCode]
  split
  · have isByte : (UInt8.ofNat code).toNat = code := toNat_ofNat_of_lt (by omega)
    rw [List.singleton_append, readBytes_ascii (by omega), isByte]
  · split
    · exact readBytes_two (by omega) (by omega)
    · split
      · exact readBytes_three (by omega) (by omega) (by omega)
      · exact readBytes_four (by omega) (by omega)

/-- The bytes of a text are read as that text. -/
theorem ofBytes_toUTF8
    (text : String) :
    ofBytes text.toUTF8 = text := by
  have read (characters : List Char) :
      readBytes none (characters.flatMap String.utf8EncodeChar) = characters := by
    induction characters with
    | nil => rfl
    | cons character rest inductionHypothesis =>
        rw [List.flatMap_cons, readBytes_utf8EncodeChar, inductionHypothesis]
  have bytes : text.toUTF8.data.toList = text.toList.flatMap String.utf8EncodeChar := by
    rw [String.toUTF8_eq_toByteArray, ← String.ofList_toList (s := text), String.toByteArray_ofList,
      List.utf8Encode, List.data_toByteArray, String.toList_ofList]
  rw [ofBytes, bytes, read, String.ofList_toList]

end CellScript.Text
