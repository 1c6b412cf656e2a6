import CellScript.Json.Printer
import CellScript.Json.Reader

namespace CellScript

/-!
# Reading what was written

The text of a JSON value is read back as that value.  Every written form ends by
itself or, if it is a number, before anything that may come behind a value, so what
follows it is left to be read.  Numbers that are not integers are left out, for they
are written in another way than they may have been read.
-/

/-! ## Digits -/

namespace Decimal

theorem isDigit_of_mem_ofNat
    {value : Nat}
    {character : Char}
    (isMember : character ∈ ofNat value) :
    character.isDigit = true :=
  Nat.isDigit_of_mem_toDigits (by decide) (by decide) isMember

/-- A positive number is written without leading zeros. -/
theorem head?_ofNat_ne_zero
    {value : Nat}
    (positive : 0 < value) :
    (ofNat value).head? ≠ some '0' := by
  induction value using Nat.strongRecOn with
  | _ value inductionHypothesis =>
      by_cases short : value < 10
      · have single : ofNat value = [value.digitChar] := Nat.toDigits_of_lt_base short
        have notZero : value ≠ 0 := by omega
        simp [single, notZero]
      · have atLeast : 10 ≤ value := Nat.le_of_not_lt short
        have split : ofNat value = ofNat (value / 10) ++ [(value % 10).digitChar] :=
          Nat.toDigits_of_base_le (by decide) atLeast
        have above := inductionHypothesis (value / 10) (by omega) (by omega)
        obtain ⟨first, more, digits⟩ : ∃ first more, ofNat (value / 10) = first :: more :=
          List.exists_cons_of_ne_nil Nat.toDigits_ne_nil
        rw [digits] at above
        rw [split, digits]
        exact above

/-- No zero is written in front of other digits. -/
theorem length_ofNat_of_leadingZero
    {value : Nat}
    (zero : (ofNat value).head? = some '0') :
    (ofNat value).length = 1 := by
  rcases Nat.eq_zero_or_pos value with rfl | positive
  · rfl
  · exact absurd zero (head?_ofNat_ne_zero positive)

end Decimal

namespace Json

/-! ## Texts -/

theorem hexValue?_hexDigit :
    ∀ value < 16, hexValue? (hexDigit value) = some value := by
  decide

/-- Two digits suffice for the code unit of a control character. -/
theorem hexUnit?_of_control
    {unit : Nat}
    (control : unit < 0x20) :
    hexUnit? '0' '0' (hexDigit (unit / 16)) (hexDigit (unit % 16)) = some unit := by
  have zero : hexValue? '0' = some 0 := by decide
  have lower := hexValue?_hexDigit (unit / 16) (by omega)
  have low := hexValue?_hexDigit (unit % 16) (by omega)
  have sum : unit / 16 * 16 + unit % 16 = unit := by omega
  simp [hexUnit?, zero, lower, low, sum]

/-- A code unit in front of others that are read. -/
def withUnit (unit : Nat) (read : List Nat × List Char) : List Nat × List Char :=
  (unit :: read.1, read.2)

/-- An escape of one letter is read as the code unit that the letter names. -/
theorem readUnits?_letter
    {letter : Char}
    {unit : Nat}
    (names : letterUnit? letter = some unit)
    (rest : List Char) :
    readUnits? ('\\' :: letter :: rest) = (readUnits? rest).map (withUnit unit) := by
  rw [readUnits?, names]
  · exact Option.map_eq_bind.symm
  · rintro first second third fourth more rfl
    have noLetter : letterUnit? 'u' = none := by decide
    rw [noLetter] at names
    cases names

/-- An escape of four digits is read as the code unit that they give. -/
theorem readUnits?_hex
    {first second third fourth : Char}
    {unit : Nat}
    (names : hexUnit? first second third fourth = some unit)
    (rest : List Char) :
    readUnits? ('\\' :: 'u' :: first :: second :: third :: fourth :: rest) =
      (readUnits? rest).map (withUnit unit) := by
  rw [readUnits?, names]
  exact Option.map_eq_bind.symm

/-- A character that needs no escape is read as it is. -/
theorem readUnits?_raw
    {character : Char}
    (noMark : character ≠ '"')
    (noEscape : character ≠ '\\')
    (noControl : ¬character.toNat < 0x20)
    (rest : List Char) :
    readUnits? (character :: rest) = (readUnits? rest).map (withUnit character.toNat) := by
  rw [readUnits?, if_neg noControl]
  · exact Option.map_eq_bind.symm
  · exact noMark
  · intro first second third fourth more same _
    exact noEscape same
  · intro letter more same _
    exact noEscape same

/-- A character is written as a letter that names it, as a code unit, or as itself. -/
theorem escape_cases
    (character : Char) :
    (∃ letter,
      escape character = ['\\', letter] ∧ letterUnit? letter = some character.toNat) ∨
    (character.toNat < 0x20 ∧
      escape character =
        ['\\', 'u', '0', '0', hexDigit (character.toNat / 16),
          hexDigit (character.toNat % 16)]) ∨
    (character ≠ '"' ∧ character ≠ '\\' ∧ ¬character.toNat < 0x20 ∧
      escape character = [character]) := by
  by_cases hasLetter : character ∈ ['"', '\\', '\x08', '\x0c', '\n', '\r', '\t']
  · left
    simp only [List.mem_cons, List.not_mem_nil, or_false] at hasLetter
    rcases hasLetter with rfl | rfl | rfl | rfl | rfl | rfl | rfl <;>
      exact ⟨_, rfl, by decide⟩
  · right
    simp only [List.mem_cons, List.not_mem_nil, or_false, not_or] at hasLetter
    obtain ⟨noMark, noEscape, noBackspace, noFormFeed, noLineFeed, noReturn, noTab⟩ := hasLetter
    rw [escape, if_neg noMark, if_neg noEscape, if_neg noBackspace, if_neg noFormFeed,
      if_neg noLineFeed, if_neg noReturn, if_neg noTab]
    by_cases control : character.toNat < 0x20
    · exact .inl ⟨control, if_pos control⟩
    · exact .inr ⟨noMark, noEscape, control, if_neg control⟩

/-- The written form of a character is read as its code unit. -/
theorem readUnits?_escape
    (character : Char)
    (rest : List Char) :
    readUnits? (escape character ++ rest) =
      (readUnits? rest).map (withUnit character.toNat) := by
  rcases escape_cases character with
    ⟨letter, written, names⟩ | ⟨control, written⟩ | ⟨noMark, noEscape, noControl, written⟩
  · rw [written]
    exact readUnits?_letter names rest
  · rw [written]
    exact readUnits?_hex (hexUnit?_of_control control) rest
  · rw [written]
    exact readUnits?_raw noMark noEscape noControl rest

/-- Escaped characters are read up to the closing quotation mark as they were. -/
theorem readUnits?_escaped
    (characters rest : List Char) :
    readUnits? (characters.flatMap escape ++ '"' :: rest) =
      some (characters.map Char.toNat, rest) := by
  induction characters with
  | nil => rw [List.flatMap_nil, List.nil_append, readUnits?, List.map_nil]
  | cons character more inductionHypothesis =>
      rw [List.flatMap_cons, List.append_assoc, readUnits?_escape, inductionHypothesis]
      rfl

/-- No character is half of a surrogate pair. -/
theorem isSurrogate_toNat
    (character : Char) :
    isSurrogate character.toNat = false := by
  have valid := character.valid
  simp only [isSurrogate, Bool.and_eq_false_iff, decide_eq_false_iff_not]
  change ¬0xD800 ≤ character.val.toNat ∨ ¬character.val.toNat ≤ 0xDFFF
  rcases valid with below | ⟨above, _⟩
  · exact .inl (Nat.not_le.mpr below)
  · exact .inr (Nat.not_le.mpr above)

/-- No character is a surrogate, so each code unit is a character of its own. -/
theorem decodeUnits?_map_toNat
    (characters : List Char) :
    decodeUnits? (characters.map Char.toNat) = some characters := by
  induction characters with
  | nil => rw [List.map_nil, decodeUnits?]
  | cons character more inductionHypothesis =>
      rw [List.map_cons, decodeUnits?.eq_def]
      simp [isSurrogate_toNat, inductionHypothesis]

/-- The written form of a text, behind its opening quotation mark, is read as that text. -/
theorem readText?_escaped
    (content : String)
    (rest : List Char) :
    readText? (content.toList.flatMap escape ++ '"' :: rest) = some (some content, rest) := by
  simp [readText?, readUnits?_escaped, decodeUnits?_map_toNat]

/-! ## Numbers -/

/-- What may come behind a value: nothing, or what separates or ends values. -/
def Follows (rest : List Char) : Prop :=
  ∀ character ∈ rest.head?, character = ',' ∨ character = ']' ∨ character = '}'

theorem Follows.nil : Follows [] :=
  nofun

theorem Follows.comma
    (rest : List Char) :
    Follows (',' :: rest) := by
  rintro _ ⟨⟩
  exact .inl rfl

theorem Follows.bracket
    (rest : List Char) :
    Follows (']' :: rest) := by
  rintro _ ⟨⟩
  exact .inr (.inl rfl)

theorem Follows.brace
    (rest : List Char) :
    Follows ('}' :: rest) := by
  rintro _ ⟨⟩
  exact .inr (.inr rfl)

/-- A number does not go on in what follows a value. -/
theorem Follows.ends_number
    {rest : List Char}
    (follows : Follows rest) :
    (∀ character ∈ rest.head?, character.isDigit = false) ∧
      readPlaces? rest = some ([], rest) ∧
      readScale? rest = some (none, rest) := by
  cases rest with
  | nil => exact ⟨nofun, rfl, rfl⟩
  | cons first more =>
      rcases follows first rfl with rfl | rfl | rfl
      all_goals
        refine ⟨?_, rfl, rfl⟩
        rintro _ ⟨⟩
        decide

/-- A natural number is not written with a sign. -/
theorem ofNat_append_ne_minus
    (value : Nat)
    (rest : List Char) :
    ∀ more, Decimal.ofNat value ++ rest ≠ '-' :: more := by
  intro more same
  obtain ⟨first, others, digits⟩ : ∃ first others, Decimal.ofNat value = first :: others :=
    List.exists_cons_of_ne_nil Nat.toDigits_ne_nil
  have isMember : first ∈ Decimal.ofNat value := by simp [digits]
  have isDigit := Decimal.isDigit_of_mem_ofNat isMember
  rw [digits] at same
  obtain ⟨rfl, _⟩ := List.cons.inj same
  exact absurd isDigit (by decide)

/-- The digits of a number are read with the sign that stands before them. -/
theorem readNumber?_digits
    {text rest : List Char}
    {negative : Bool}
    {value : Nat}
    (signed :
      text = '-' :: (Decimal.ofNat value ++ rest) ∧ negative = true ∨
        text = Decimal.ofNat value ++ rest ∧ negative = false)
    (follows : Follows rest) :
    readNumber? text = some (number negative (Decimal.ofNat value) [] none, rest) := by
  obtain ⟨noDigit, noPlaces, noScale⟩ := follows.ends_number
  have digits : Decimal.spanDigits (Decimal.ofNat value ++ rest) = (Decimal.ofNat value, rest) :=
    Decimal.spanDigits_append (fun _ => Decimal.isDigit_of_mem_ofNat) noDigit
  have wellFormed :
      ((Decimal.ofNat value).isEmpty ||
        ((Decimal.ofNat value).head? == some '0' && 1 < (Decimal.ofNat value).length)) =
          false := by
    have nonempty : Decimal.ofNat value ≠ [] := Nat.toDigits_ne_nil
    by_cases zero : (Decimal.ofNat value).head? = some '0'
    · simp [nonempty, Decimal.length_ofNat_of_leadingZero zero]
    · simp [nonempty, zero]
  unfold readNumber?
  rcases signed with ⟨rfl, rfl⟩ | ⟨rfl, rfl⟩
  · simp [digits, wellFormed, noPlaces, noScale]
  · split
    next negative unsigned sign =>
      split at sign
      · next isMinus => exact absurd isMinus (ofNat_append_ne_minus value rest _)
      · cases sign
        simp [digits, wellFormed, noPlaces, noScale]

/-- The written form of an integer is read as that integer. -/
theorem readNumber?_ofInt
    (value : Int)
    {rest : List Char}
    (follows : Follows rest) :
    readNumber? (Decimal.ofInt value ++ rest) = some (.integer value, rest) := by
  have digits (value : Nat) : Decimal.ofDigits (Decimal.ofNat value) = value := by
    rw [Decimal.ofDigits_eq, Decimal.ofNat, Nat.ofDigitChars_ten_toDigits]
  cases value with
  | ofNat value =>
      rw [Decimal.ofInt, readNumber?_digits (.inr ⟨rfl, rfl⟩) follows]
      simp [number, digits]
  | negSucc value =>
      rw [Decimal.ofInt, List.cons_append, readNumber?_digits (.inl ⟨rfl, rfl⟩) follows]
      simp [number, digits, Int.negSucc_eq]

/-! ## Values -/

mutual

/-- A value without numbers that are not integers, in which every text has content. -/
def isExact : Json → Bool
  | .null => true
  | .boolean _ => true
  | .integer _ => true
  | .real _ => false
  | .text content => content.isSome
  | .array items => areExact items
  | .object fields => haveExact fields

/-- Every item of an array is exact. -/
def areExact : List Json → Bool
  | [] => true
  | item :: rest => isExact item && areExact rest

/-- Every field of an object has a name and an exact value. -/
def haveExact : List (Option String × Json) → Bool
  | [] => true
  | (name, value) :: rest => name.isSome && isExact value && haveExact rest

end

/-- A character with which a written value can begin. -/
def begins (character : Char) : Bool :=
  character.isDigit || character ∈ ['-', 'n', 't', 'f', '"', '[', '{']

/-- An integer is written with a digit or a minus sign in front. -/
theorem ofInt_cons
    (value : Int) :
    ∃ first more,
      Decimal.ofInt value = first :: more ∧ (first.isDigit = true ∨ first = '-') := by
  cases value with
  | ofNat value =>
      obtain ⟨first, more, digits⟩ : ∃ first more, Decimal.ofNat value = first :: more :=
        List.exists_cons_of_ne_nil Nat.toDigits_ne_nil
      have isMember : first ∈ Decimal.ofNat value := by simp [digits]
      exact ⟨first, more, digits, .inl (Decimal.isDigit_of_mem_ofNat isMember)⟩
  | negSucc value => exact ⟨'-', Decimal.ofNat (value + 1), rfl, .inr rfl⟩

/-- The first character of a printed value tells that a value begins. -/
theorem print_cons
    {value : Json}
    (exact : value.isExact = true) :
    ∃ first more, print value = first :: more ∧ begins first = true := by
  cases value with
  | null => exact ⟨'n', _, rfl, by decide⟩
  | boolean value => cases value <;> exact ⟨_, _, rfl, by decide⟩
  | integer value =>
      obtain ⟨first, more, written, digit | minus⟩ := ofInt_cons value
      · exact ⟨first, more, written, by simp [begins, digit]⟩
      · exact ⟨first, more, written, by simp [begins, minus]⟩
  | real fraction => cases exact
  | text content => cases content <;> exact ⟨'"', _, rfl, by decide⟩
  | array items => exact ⟨'[', _, rfl, by decide⟩
  | object fields => exact ⟨'{', _, rfl, by decide⟩

theorem ne_of_begins
    {first other : Char}
    (isFirst : begins first = true)
    (noFirst : begins other = false) :
    first ≠ other := by
  rintro rfl
  rw [isFirst] at noFirst
  cases noFirst

/-- No value begins with a character that is skipped between values. -/
theorem isGap_of_begins
    {first : Char}
    (isFirst : begins first = true) :
    isGap first = false := by
  cases gap : isGap first with
  | false => rfl
  | true =>
      simp only [isGap, Bool.or_eq_true, decide_eq_true_eq] at gap
      rcases gap with ((rfl | rfl) | rfl) | rfl <;> exact absurd isFirst (by decide)

/-- Nothing is skipped in front of a character that is no gap. -/
theorem skipGap_cons
    {first : Char}
    (noGap : isGap first = false)
    (more : List Char) :
    skipGap (first :: more) = first :: more := by
  simp [skipGap, noGap]

/-- There is no gap in front of a written value. -/
theorem skipGap_print
    {value : Json}
    (exact : value.isExact = true)
    (rest : List Char) :
    skipGap (print value ++ rest) = print value ++ rest := by
  obtain ⟨first, more, written, isFirst⟩ := print_cons exact
  rw [written]
  exact skipGap_cons (isGap_of_begins isFirst) _

/-- No written integer begins like another value. -/
theorem ofInt_append_ne
    {character : Char}
    (value : Int)
    (rest tail : List Char)
    (noNumber : character.isDigit = false ∧ character ≠ '-') :
    Decimal.ofInt value ++ rest ≠ character :: tail := by
  obtain ⟨noDigit, noMinus⟩ := noNumber
  obtain ⟨first, more, written, digitOrMinus⟩ := ofInt_cons value
  intro same
  rw [written] at same
  obtain ⟨rfl, _⟩ := List.cons.inj same
  rcases digitOrMinus with digit | minus
  · rw [digit] at noDigit
    cases noDigit
  · exact noMinus minus

/-- A printed integer is read back where it may end. -/
theorem readValue?_ofInt
    (value : Int)
    {rest : List Char}
    (follows : Follows rest)
    (fuel : Nat) :
    readValue? (fuel + 1) (Decimal.ofInt value ++ rest) = some (.integer value, rest) := by
  have isExact : isExact (.integer value) = true := rfl
  have noGap : skipGap (Decimal.ofInt value ++ rest) = Decimal.ofInt value ++ rest :=
    skipGap_print isExact rest
  have other (character : Char) (tail : List Char) := @ofInt_append_ne character value rest tail
  unfold readValue?
  rw [noGap]
  split
  · next same => exact absurd same (other _ _ (by decide))
  · next same => exact absurd same (other _ _ (by decide))
  · next same => exact absurd same (other _ _ (by decide))
  · next same => exact absurd same (other _ _ (by decide))
  · next same => exact absurd same (other _ _ (by decide))
  · next same => exact absurd same (other _ _ (by decide))
  · exact readNumber?_ofInt value follows

/-! ## Arrays and objects -/

/-- Printed items begin with the first of them. -/
theorem printItems_cons
    (item : Json)
    (more : List Json) :
    ∃ tail, printItems (item :: more) = print item ++ tail := by
  cases more with
  | nil => exact ⟨[], (List.append_nil _).symm⟩
  | cons next rest => exact ⟨_, rfl⟩

/-- An array with items is read as these items, once its bracket is read. -/
theorem readValue?_array
    {item : Json}
    (exact : item.isExact = true)
    (more : List Json)
    (rest : List Char)
    (fuel : Nat) :
    readValue? (fuel + 1) (print (.array (item :: more)) ++ rest) =
      (readItems? fuel (printItems (item :: more) ++ ']' :: rest)).map
        fun (items, rest) => (.array items, rest) := by
  obtain ⟨tail, written⟩ := printItems_cons item more
  obtain ⟨first, others, begun, isFirst⟩ := print_cons exact
  have noBracket : first ≠ ']' := ne_of_begins isFirst (by decide)
  have opened :
      print (.array (item :: more)) ++ rest =
        '[' :: (first :: (others ++ tail ++ ']' :: rest)) := by
    simp [print, written, begun]
  rw [opened, readValue?, skipGap_cons (by decide)]
  simp only [skipGap_cons (isGap_of_begins isFirst)]
  split
  · next same => exact absurd (List.cons.inj same).1 noBracket
  · simp [written, begun]

/-- Printed fields begin with the name and the value of the first of them. -/
theorem printFields_cons
    (name : Option String)
    (value : Json)
    (more : List (Option String × Json)) :
    ∃ tail, printFields ((name, value) :: more) = printText name ++ ':' :: (print value ++ tail) := by
  cases more with
  | nil => exact ⟨[], by simp [printFields]⟩
  | cons next rest => exact ⟨_, rfl⟩

/-- An object with fields is read as these fields, once its brace is read. -/
theorem readValue?_object
    (name : String)
    (value : Json)
    (more : List (Option String × Json))
    (rest : List Char)
    (fuel : Nat) :
    readValue? (fuel + 1) (print (.object ((some name, value) :: more)) ++ rest) =
      (readFields? fuel (printFields ((some name, value) :: more) ++ '}' :: rest)).map
        fun (fields, rest) => (.object fields, rest) := by
  obtain ⟨tail, written⟩ := printFields_cons (some name) value more
  have opened :
      print (.object ((some name, value) :: more)) ++ rest =
        '{' :: (printFields ((some name, value) :: more) ++ '}' :: rest) := by
    simp [print]
  rw [opened, readValue?, skipGap_cons (by decide), written]
  simp [printText, skipGap_cons, isGap]

section

variable {item value : Json} {name : String} {input rest : List Char} {fuel : Nat}

theorem readItems?_last
    (read : readValue? fuel input = some (item, ']' :: rest)) :
    readItems? (fuel + 1) input = some ([item], rest) := by
  simp [readItems?, read, skipGap_cons, isGap]

/-- An item in front of a comma is followed by others. -/
theorem readItems?_next
    (read : readValue? fuel input = some (item, ',' :: rest)) :
    readItems? (fuel + 1) input =
      (readItems? fuel rest).map fun (items, rest) => (item :: items, rest) := by
  have noGap : skipGap (',' :: rest) = ',' :: rest := skipGap_cons (by decide) rest
  simp only [readItems?, read, Option.bind_eq_bind, Option.bind_some, noGap]
  exact Option.map_eq_bind.symm

theorem readFields?_last
    (read : readValue? fuel input = some (value, '}' :: rest)) :
    readFields? (fuel + 1) (printText (some name) ++ ':' :: input) =
      some ([(some name, value)], rest) := by
  have named := readText?_escaped name (':' :: input)
  simp [printText, readFields?, skipGap_cons, isGap, named, read]

theorem readFields?_next
    (read : readValue? fuel input = some (value, ',' :: rest)) :
    readFields? (fuel + 1) (printText (some name) ++ ':' :: input) =
      (readFields? fuel rest).map fun (fields, rest) => ((some name, value) :: fields, rest) := by
  have named := readText?_escaped name (':' :: input)
  have noGap : skipGap (',' :: rest) = ',' :: rest := skipGap_cons (by decide) rest
  have atName := skipGap_cons (show isGap '"' = false by decide)
    (name.toList.flatMap escape ++ '"' :: ':' :: input)
  have atValue : skipGap (':' :: input) = ':' :: input := skipGap_cons (by decide) input
  simp only [printText, readFields?, List.cons_append, List.append_assoc, List.nil_append,
    atName, named, atValue, read, noGap, Option.bind_eq_bind, Option.bind_some]
  exact Option.map_eq_bind.symm

end

mutual

/-- A written value is read back, and what follows it is left. -/
theorem readValue?_print :
    (value : Json) →
    value.isExact = true →
    ∀ {rest : List Char} {fuel : Nat},
      Follows rest →
      (print value).length ≤ fuel →
      readValue? fuel (print value ++ rest) = some (value, rest)
  | .null, _, _, fuel + 1, _, _ => rfl
  | .boolean true, _, _, fuel + 1, _, _ => rfl
  | .boolean false, _, _, fuel + 1, _, _ => rfl
  | .integer value, _, _, fuel + 1, follows, _ => readValue?_ofInt value follows fuel
  | .text (some content), _, rest, fuel + 1, _, _ => by
      have read := readText?_escaped content rest
      simp [print, printText, readValue?, skipGap_cons, isGap, read]
  | .array [], _, _, fuel + 1, _, _ => rfl
  | .array (item :: more), exact, rest, fuel + 1, _, enough => by
      have itemExact : item.isExact = true := by
        simp only [isExact, areExact, Bool.and_eq_true] at exact
        exact exact.1
      have room : (printItems (item :: more)).length < fuel := by
        simp only [print, List.length_cons, List.length_append, List.length_nil] at enough
        omega
      rw [readValue?_array itemExact, readItems?_print (item :: more) nofun exact rest room]
      rfl
  | .object [], _, _, fuel + 1, _, _ => rfl
  | .object ((some name, value) :: more), exact, rest, fuel + 1, _, enough => by
      have room : (printFields ((some name, value) :: more)).length < fuel := by
        simp only [print, List.length_cons, List.length_append, List.length_nil] at enough
        omega
      rw [readValue?_object, readFields?_print ((some name, value) :: more) nofun exact rest room]
      rfl
  | value, exact, _, 0, _, enough => by
      obtain ⟨first, more, written, _⟩ := print_cons exact
      simp [written] at enough

/-- Written items are read back up to and with the bracket behind them. -/
theorem readItems?_print :
    (items : List Json) →
    items ≠ [] →
    areExact items = true →
    ∀ (rest : List Char) {fuel : Nat},
      (printItems items).length < fuel →
      readItems? fuel (printItems items ++ ']' :: rest) = some (items, rest)
  | [], nonempty, _, _, _, _ => absurd rfl nonempty
  | [item], _, exact, rest, fuel + 1, room => by
      simp only [areExact, Bool.and_true] at exact
      have read := readValue?_print item exact (Follows.bracket rest) (Nat.le_of_lt_succ room)
      rw [printItems]
      exact readItems?_last read
  | item :: next :: more, _, exact, rest, fuel + 1, room => by
      rw [areExact, Bool.and_eq_true] at exact
      simp only [printItems, List.length_append, List.length_cons] at room
      have itemRoom : (print item).length ≤ fuel := by omega
      have moreRoom : (printItems (next :: more)).length < fuel := by omega
      have read := readValue?_print item exact.1
        (Follows.comma (printItems (next :: more) ++ ']' :: rest)) itemRoom
      have readMore := readItems?_print (next :: more) nofun exact.2 rest moreRoom
      rw [printItems, List.append_assoc, List.cons_append, readItems?_next read, readMore]
      · rfl
      · nofun

/-- Written fields are read back up to and with the brace behind them. -/
theorem readFields?_print :
    (fields : List (Option String × Json)) →
    fields ≠ [] →
    haveExact fields = true →
    ∀ (rest : List Char) {fuel : Nat},
      (printFields fields).length < fuel →
      readFields? fuel (printFields fields ++ '}' :: rest) = some (fields, rest)
  | [], nonempty, _, _, _, _ => absurd rfl nonempty
  | [(some name, value)], _, exact, rest, fuel + 1, room => by
      simp only [haveExact, Option.isSome_some, Bool.true_and, Bool.and_true] at exact
      simp only [printFields, List.length_append, List.length_cons] at room
      have valueRoom : (print value).length ≤ fuel := by omega
      have read := readValue?_print value exact (Follows.brace rest) valueRoom
      rw [printFields, List.append_assoc, List.cons_append, readFields?_last read]
  | (some name, value) :: next :: more, _, exact, rest, fuel + 1, room => by
      rw [haveExact, Option.isSome_some, Bool.true_and, Bool.and_eq_true] at exact
      simp only [printFields, List.length_append, List.length_cons] at room
      have valueRoom : (print value).length ≤ fuel := by omega
      have moreRoom : (printFields (next :: more)).length < fuel := by omega
      have read := readValue?_print value exact.1
        (Follows.comma (printFields (next :: more) ++ '}' :: rest)) valueRoom
      have readMore := readFields?_print (next :: more) nofun exact.2 rest moreRoom
      have written :
          printFields ((some name, value) :: next :: more) ++ '}' :: rest =
            printText (some name) ++ ':' ::
              (print value ++ ',' :: (printFields (next :: more) ++ '}' :: rest)) := by
        simp [printFields]
      rw [written, readFields?_next read, readMore]
      rfl

end

/-- A text holds the value that was written to it. -/
theorem ofText?_toText
    {value : Json}
    (exact : value.isExact = true) :
    ofText? value.toText = some value := by
  have enough : (print value).length ≤ fuelFor (print value) := by
    unfold fuelFor
    omega
  have read := readValue?_print value exact Follows.nil enough
  rw [List.append_nil] at read
  simp [ofText?, toText, read, skipGap]

end Json

end CellScript
