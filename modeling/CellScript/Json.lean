import CellScript.Numeral.Stepwise

namespace CellScript

/-!
# JSON values

A JSON value keeps what its text says and its readers may care about: integer
literals stay apart from other numbers, and an object keeps all its fields in
order, repeated ones too.  A text is well-formed even when one of its escapes
names half of a surrogate pair; such a text has no content.
-/

/-- A JSON value. -/
inductive Json where
  | null
  | boolean (value : Bool)
  /-- A number written as an integer, other than minus zero. -/
  | integer (value : Int)
  /-- A number written in any other way. -/
  | real (fraction : Decimal.Fraction)
  /-- A text, with no content when an escape names half of a surrogate pair. -/
  | text (content : Option String)
  | array (items : List Json)
  | object (fields : List (Option String × Json))
  deriving Repr

namespace Json

/-- A field with a known name. -/
def field (name : String) (value : Json) : Option String × Json :=
  (some name, value)

/-- A JSON text with content. -/
def ofString (content : String) : Json :=
  .text (some content)

/-- The JSON form of a 64-bit integer. -/
def ofInt64 (value : Int64) : Json :=
  .integer value.toInt

/-- Read a 64-bit integer from an integer literal. -/
def toInt64? : Json → Option Int64
  | .integer value => Decimal.toInt64? value
  | _ => none

/-- Read the content of a text. -/
def toString? : Json → Option String
  | .text content => content
  | _ => none

/-- Read an array of texts. -/
def toStrings? : Json → Option (List String)
  | .array items => items.mapM toString?
  | _ => none

/-- The values of all fields of one name, in order. -/
def valuesOf (name : String) (fields : List (Option String × Json)) : List Json :=
  (fields.filter fun entry => entry.1 = some name).map Prod.snd

/-- The value of the last field of one name. -/
def lastOf? (name : String) (fields : List (Option String × Json)) : Option Json :=
  (valuesOf name fields).getLast?

/-- The value of the only field of one name; repeated fields have none. -/
def onlyOf? (name : String) (fields : List (Option String × Json)) : Option Json :=
  match valuesOf name fields with
  | [value] => some value
  | _ => none

/-- The fields that stay when of repeated ones only the last counts. -/
def lastOfEach : List (Option String × Json) → List (Option String × Json)
  | [] => []
  | entry :: rest =>
      if rest.any fun later => later.1 = entry.1 then
        lastOfEach rest
      else
        entry :: lastOfEach rest

/-- Every field has a name. -/
def named (fields : List (Option String × Json)) : Bool :=
  fields.all fun entry => entry.1.isSome

mutual

/-- The number of arrays and objects around the innermost part of a value. -/
def nesting : Json → Nat
  | .array items => nestingOfItems items + 1
  | .object fields => nestingOfFields fields + 1
  | _ => 0

/-- The greatest nesting among the items of an array. -/
def nestingOfItems : List Json → Nat
  | [] => 0
  | item :: rest => max (nesting item) (nestingOfItems rest)

/-- The greatest nesting among the fields of an object. -/
def nestingOfFields : List (Option String × Json) → Nat
  | [] => 0
  | (_, value) :: rest => max (nesting value) (nestingOfFields rest)

end

mutual

/-- Every text in a value has content, and every number in it is finite when read in steps. -/
def isDefinite : Json → Bool
  | .null => true
  | .boolean _ => true
  | .integer value => (Decimal.Fraction.ofNat value.natAbs).isFiniteInSteps
  | .real fraction => fraction.isFiniteInSteps
  | .text content => content.isSome
  | .array items => areDefinite items
  | .object fields => haveDefinite fields

/-- Every item of an array is definite. -/
def areDefinite : List Json → Bool
  | [] => true
  | item :: rest => isDefinite item && areDefinite rest

/-- Every name and value of an object is definite. -/
def haveDefinite : List (Option String × Json) → Bool
  | [] => true
  | (name, value) :: rest => name.isSome && isDefinite value && haveDefinite rest

end

end Json

end CellScript
