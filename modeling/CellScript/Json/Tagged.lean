import CellScript.Json

namespace CellScript.Json

/-!
# Tagged values

Values of several kinds are written as an object whose field `type` names the
kind and whose field `value` holds what belongs to it.  An array of the two reads
as the same.  A value in front of its tag is kept until the tag is known.  Kept
values have a few more spellings: the head of an array may give a kind by its
number, and an object without fields may stand for nothing.
-/

/-- A kind and what belongs to it. -/
structure Tagged where
  tag : String
  content : Option Json
  deriving Repr

/-- The JSON form of a tagged value. -/
def ofTagged (tagged : Tagged) : Json :=
  match tagged.content with
  | none => .object [field "type" (ofString tagged.tag)]
  | some content =>
      .object [field "type" (ofString tagged.tag), field "value" content]

/-- The value is nothing: null or, among kept values, an object without fields. -/
def isNothing (kept : Bool) : Json → Bool
  | .null => true
  | .object [] => kept
  | _ => false

/-- Read the tag in a field: a text, or an object with the tag as a name that has nothing. -/
def fieldTag? (kept : Bool) : Json → Option String
  | .text content => content
  | .object [(name, value)] => if value.isNothing kept then name else none
  | _ => none

/-- Read the tag at the head of an array: a text or, among kept values, the number of a kind. -/
def headTag? (kinds : List String) (kept : Bool) : Json → Option String
  | .text content => content
  | .integer (.ofNat number) => if kept then kinds[number]? else none
  | _ => none

/-- The field for the content stands in front of the field for the tag. -/
def contentFirst : Json → Bool
  | .object fields =>
      ((fields.map Prod.fst).find? fun name =>
        name = some "type" || name = some "value") = some (some "value")
  | _ => false

/-- A value that can be kept before it is known what it is: definite and not nested too deep. -/
def keepable (room : Nat) (value : Json) : Bool :=
  value.isDefinite && value.nesting ≤ room

/--
Read a value tagged with one of some kinds, inside which at most `room` arrays
and objects may lie inside each other.  Neither field may be repeated, and other
fields are ignored, but every field has a name.
-/
def toTagged? (kinds : List String) (room : Nat) (kept : Bool) : Json → Option Tagged
  | .array [tag, content] =>
      (tag.headTag? kinds kept).map fun tag => { tag, content := some content }
  | .object fields => do
      let tag ← onlyOf? "type" fields
      if named fields && tag.nesting ≤ room then
        let name ← tag.fieldTag? kept
        match valuesOf "value" fields with
        | [] => some { tag := name, content := none }
        | [content] =>
            if contentFirst (.object fields) && !keepable room content then
              none
            else
              some { tag := name, content := some content }
        | _ => none
      else
        none
  | _ => none

end CellScript.Json
