import CellScript.Json.Tagged
import CellScript.Tree

namespace CellScript

/-!
# Trees as JSON

A leaf is an object that names its kind and gives its value, a block is an array
of its members.  Reading also takes a leaf written as an array of its kind, or
the number of that, and its value, ignores other fields of a leaf, and of
repeated fields takes the last.
-/

namespace Leaf

/-- The name of the kind of a leaf. -/
def kind : Leaf → String
  | .word _ => "Word"
  | .text _ => "String"
  | .number _ => "Number"

/-- The names of all kinds; a kind has the number of its place among them. -/
def kinds : List String :=
  ["String", "Number", "Word"]

/-- The JSON form of the value of a leaf. -/
def valueJson : Leaf → Json
  | .word name => .ofString name
  | .text content => .ofString content
  | .number value => .ofInt64 value

/-- The JSON form of a leaf. -/
def toJson (leaf : Leaf) : Json :=
  .ofTagged { tag := leaf.kind, content := some leaf.valueJson }

/-- The leaf of a kind with a value. -/
def ofParts? (kind : String) (value : Json) : Option Leaf :=
  if kind = "Word" then value.toString?.map .word
  else if kind = "String" then value.toString?.map .text
  else if kind = "Number" then value.toInt64?.map .number
  else none

/-- Read the kind of a leaf in a field. -/
def kindOfField? : Json → Option String
  | .object fields => (Json.object (Json.lastOfEach fields)).fieldTag? false
  | kind => kind.fieldTag? false

/-- Read a leaf from an object, or from an array of kind and value. -/
def ofJson? : Json → Option Leaf
  | .object fields => do
      let kind ← (Json.lastOf? "type" fields).bind kindOfField?
      let value ← Json.lastOf? "value" fields
      ofParts? kind value
  | .array [kind, value] => do
      let kind ← kind.headTag? kinds true
      ofParts? kind value
  | _ => none

end Leaf

namespace Node

mutual

/-- The JSON form of a node. -/
def toJson : Node → Json
  | .leaf value => value.toJson
  | .block members => .array (toJsonAll members)

/-- The JSON forms of members. -/
def toJsonAll : List Node → List Json
  | [] => []
  | member :: rest => toJson member :: toJsonAll rest

end

mutual

/-- Read a node: a leaf if it reads as one, and otherwise a block. -/
def ofJson? : Json → Option Node
  | .array items =>
      match Leaf.ofJson? (.array items) with
      | some value => some (.leaf value)
      | none => (ofJsonAll? items).map .block
  | other => (Leaf.ofJson? other).map .leaf

/-- Read members. -/
def ofJsonAll? : List Json → Option (List Node)
  | [] => some []
  | item :: rest => do
      let member ← ofJson? item
      let members ← ofJsonAll? rest
      return member :: members

end

/-- Read the members of the outermost block, which is never a leaf. -/
def membersOfJson? : Json → Option (List Node)
  | .array items => ofJsonAll? items
  | _ => none

end Node

end CellScript
