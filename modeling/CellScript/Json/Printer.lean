import CellScript.Json

namespace CellScript.Json

/-!
# Writing JSON

A value is written without blanks.  In a text the quotation mark, the reverse
solidus and the control characters below the space are escaped, the common ones
by a letter; every other character stands for itself.
-/

/-- The lower-case hexadecimal digit of a number below sixteen. -/
def hexDigit (value : Nat) : Char :=
  Nat.digitChar value

/-- The written form of one character of a text. -/
def escape (character : Char) : List Char :=
  if character = '"' then ['\\', '"']
  else if character = '\\' then ['\\', '\\']
  else if character = '\x08' then ['\\', 'b']
  else if character = '\x0c' then ['\\', 'f']
  else if character = '\n' then ['\\', 'n']
  else if character = '\r' then ['\\', 'r']
  else if character = '\t' then ['\\', 't']
  else if character.toNat < 0x20 then
    ['\\', 'u', '0', '0', hexDigit (character.toNat / 16), hexDigit (character.toNat % 16)]
  else [character]

/-- The written form of a text; one without content is written as half a surrogate pair. -/
def printText : Option String → List Char
  | some content => '"' :: (content.toList.flatMap escape ++ ['"'])
  | none => ['"', '\\', 'u', 'd', '8', '0', '0', '"']

/-- The written form of a number that is not an integer literal. -/
def printReal (fraction : Decimal.Fraction) : List Char :=
  let digits := Decimal.ofNat fraction.digits ++ 'e' :: Decimal.ofInt fraction.scale
  if fraction.negative then '-' :: digits else digits

mutual

/-- The written form of a value. -/
def print : Json → List Char
  | .null => ['n', 'u', 'l', 'l']
  | .boolean true => ['t', 'r', 'u', 'e']
  | .boolean false => ['f', 'a', 'l', 's', 'e']
  | .integer value => Decimal.ofInt value
  | .real fraction => printReal fraction
  | .text content => printText content
  | .array items => '[' :: (printItems items ++ [']'])
  | .object fields => '{' :: (printFields fields ++ ['}'])

/-- The written forms of the items of an array, with commas between them. -/
def printItems : List Json → List Char
  | [] => []
  | [item] => print item
  | item :: rest => print item ++ ',' :: printItems rest

/-- The written forms of the fields of an object, with commas between them. -/
def printFields : List (Option String × Json) → List Char
  | [] => []
  | [(name, value)] => printText name ++ ':' :: print value
  | (name, value) :: rest =>
      printText name ++ ':' :: (print value ++ ',' :: printFields rest)

end

/-- The text of a value. -/
def toText (value : Json) : String :=
  String.ofList (print value)

end CellScript.Json
