import CellScript.Json

namespace CellScript.Json

/-!
# Reading JSON

The grammar is the strict one: no comments, no trailing commas, no leading zeros,
no raw control characters in a text, and nothing but blanks around the value.
Readers take the text still to come and return a value with what follows it.
-/

/-- The characters that may stand between the parts of a value. -/
def isGap (character : Char) : Bool :=
  character = ' ' || character = '\n' || character = '\r' || character = '\t'

/-- Drop the gap in front of a text. -/
def skipGap (text : List Char) : List Char :=
  text.dropWhile isGap

/-- The value of a hexadecimal digit in either case. -/
def hexValue? (character : Char) : Option Nat :=
  if '0' ≤ character ∧ character ≤ '9' then some (character.toNat - '0'.toNat)
  else if 'a' ≤ character ∧ character ≤ 'f' then some (character.toNat - 'a'.toNat + 10)
  else if 'A' ≤ character ∧ character ≤ 'F' then some (character.toNat - 'A'.toNat + 10)
  else none

/-- The code unit named by four hexadecimal digits. -/
def hexUnit? (first second third fourth : Char) : Option Nat := do
  let high ← hexValue? first
  let upper ← hexValue? second
  let lower ← hexValue? third
  let low ← hexValue? fourth
  return ((high * 16 + upper) * 16 + lower) * 16 + low

/-- The code unit named by an escape of one letter. -/
def letterUnit? (letter : Char) : Option Nat :=
  if letter = '"' ∨ letter = '\\' ∨ letter = '/' then some letter.toNat
  else if letter = 'b' then some 0x08
  else if letter = 'f' then some 0x0C
  else if letter = 'n' then some 0x0A
  else if letter = 'r' then some 0x0D
  else if letter = 't' then some 0x09
  else none

/-- Read the code units of a text up to and with its closing quotation mark. -/
def readUnits? : List Char → Option (List Nat × List Char)
  | [] => none
  | '"' :: rest => some ([], rest)
  | '\\' :: 'u' :: first :: second :: third :: fourth :: rest => do
      let unit ← hexUnit? first second third fourth
      let (units, rest) ← readUnits? rest
      return (unit :: units, rest)
  | '\\' :: letter :: rest => do
      let unit ← letterUnit? letter
      let (units, rest) ← readUnits? rest
      return (unit :: units, rest)
  | character :: rest => do
      if character.toNat < 0x20 then
        none
      else
        let (units, rest) ← readUnits? rest
        return (character.toNat :: units, rest)

/-- Code units that are halves of surrogate pairs. -/
def isSurrogate (unit : Nat) : Bool :=
  0xD800 ≤ unit && unit ≤ 0xDFFF

/-- Surrogates that end a pair. -/
def isLowSurrogate (unit : Nat) : Bool :=
  0xDC00 ≤ unit && unit ≤ 0xDFFF

/-- The characters that code units encode, unless half of a surrogate pair stands alone. -/
def decodeUnits? : List Nat → Option (List Char)
  | [] => some []
  | unit :: rest =>
      if isSurrogate unit then
        match rest with
        | [] => none
        | low :: rest =>
            if !isLowSurrogate unit && isLowSurrogate low then
              let code := 0x10000 + (unit - 0xD800) * 0x400 + (low - 0xDC00)
              (decodeUnits? rest).map (Char.ofNat code :: ·)
            else
              none
      else
        (decodeUnits? rest).map (Char.ofNat unit :: ·)

/-- Read the text behind an opening quotation mark. -/
def readText? (text : List Char) : Option (Option String × List Char) :=
  (readUnits? text).map fun (units, rest) =>
    ((decodeUnits? units).map String.ofList, rest)

/-- Read the point and the digits behind it, if there is a point. -/
def readPlaces? : List Char → Option (List Char × List Char)
  | '.' :: rest =>
      let (digits, rest) := Decimal.spanDigits rest
      if digits.isEmpty then none else some (digits, rest)
  | rest => some ([], rest)

/-- Read an exponent, if there is one. -/
def readScale? (text : List Char) : Option (Option Int × List Char) :=
  match text with
  | marker :: rest =>
      if marker = 'e' ∨ marker = 'E' then
        let (negative, rest) := Decimal.readSign rest
        let (digits, rest) := Decimal.spanDigits rest
        (Decimal.readNat? digits).map fun value =>
          (some (if negative then -(value : Int) else value), rest)
      else
        some (none, text)
  | [] => some (none, text)

/-- The number with the given sign, digits before and behind the point, and exponent. -/
def number
    (negative : Bool)
    (whole places : List Char)
    (scale : Option Int) :
    Json :=
  let value := Decimal.ofDigits whole
  if places.isEmpty && scale.isNone && !(negative && value == 0) then
    .integer (if negative then -(value : Int) else value)
  else
    .real { negative, whole, places, exponent := scale.getD 0 }

/-- Read a number. -/
def readNumber? (text : List Char) : Option (Json × List Char) := do
  let (negative, unsigned) :=
    match text with
    | '-' :: rest => (true, rest)
    | rest => (false, rest)
  let (whole, rest) := Decimal.spanDigits unsigned
  if whole.isEmpty || (whole.head? == some '0' && 1 < whole.length) then
    none
  else
    let (places, rest) ← readPlaces? rest
    let (scale, rest) ← readScale? rest
    return (number negative whole places scale, rest)

mutual

/-- Read a value, with fuel for its parts. -/
def readValue? : Nat → List Char → Option (Json × List Char)
  | 0, _ => none
  | fuel + 1, input =>
      match skipGap input with
      | 'n' :: 'u' :: 'l' :: 'l' :: rest => some (.null, rest)
      | 't' :: 'r' :: 'u' :: 'e' :: rest => some (.boolean true, rest)
      | 'f' :: 'a' :: 'l' :: 's' :: 'e' :: rest => some (.boolean false, rest)
      | '"' :: rest => (readText? rest).map fun (content, rest) => (.text content, rest)
      | '[' :: rest =>
          match skipGap rest with
          | ']' :: rest => some (.array [], rest)
          | rest => (readItems? fuel rest).map fun (items, rest) => (.array items, rest)
      | '{' :: rest =>
          match skipGap rest with
          | '}' :: rest => some (.object [], rest)
          | rest => (readFields? fuel rest).map fun (fields, rest) => (.object fields, rest)
      | rest => readNumber? rest

/-- Read one or more items up to and with the bracket that ends their array. -/
def readItems? : Nat → List Char → Option (List Json × List Char)
  | 0, _ => none
  | fuel + 1, input => do
      let (item, rest) ← readValue? fuel input
      match skipGap rest with
      | ']' :: rest => return ([item], rest)
      | ',' :: rest =>
          let (items, rest) ← readItems? fuel rest
          return (item :: items, rest)
      | _ => none

/-- Read one or more fields up to and with the brace that ends their object. -/
def readFields? : Nat → List Char → Option (List (Option String × Json) × List Char)
  | 0, _ => none
  | fuel + 1, input => do
      match skipGap input with
      | '"' :: rest =>
          let (name, rest) ← readText? rest
          match skipGap rest with
          | ':' :: rest =>
              let (value, rest) ← readValue? fuel rest
              match skipGap rest with
              | '}' :: rest => return ([(name, value)], rest)
              | ',' :: rest =>
                  let (fields, rest) ← readFields? fuel rest
                  return ((name, value) :: fields, rest)
              | _ => none
          | _ => none
      | _ => none

end

/-- Enough fuel for every value that a text can hold. -/
def fuelFor (text : List Char) : Nat :=
  2 * text.length + 2

/-- Read the value that a whole text holds. -/
def ofText? (text : String) : Option Json :=
  let characters := text.toList
  match readValue? (fuelFor characters) characters with
  | some (value, rest) => if (skipGap rest).isEmpty then some value else none
  | none => none

end CellScript.Json
