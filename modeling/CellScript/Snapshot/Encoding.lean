import CellScript.Json.Printer
import CellScript.Json.Reader
import CellScript.Json.Tagged
import CellScript.Snapshot

namespace CellScript.Snapshot

/-!
# Snapshots as JSON

A snapshot is written as a tagged value; the absent value has a tag alone.  When
read, the arrays and objects of a snapshot may lie inside each other only so deep.
Fields that are ignored do not count.  Items of a kept list are kept with it.
-/

/-- The name of the kind of a snapshot. -/
def kind : Snapshot → String
  | .none => "None"
  | .boolean _ => "Boolean"
  | .integer _ => "Integer"
  | .text _ => "String"
  | .list _ => "List"
  | .function _ => "Function"

/-- The names of all kinds; a kind has the number of its place among them. -/
def kinds : List String :=
  ["None", "Boolean", "Integer", "String", "List", "Function"]

mutual

/-- The JSON form of a snapshot. -/
def toJson : Snapshot → Json
  | .none => .ofTagged { tag := "None", content := Option.none }
  | .boolean value => .ofTagged { tag := "Boolean", content := some (.boolean value) }
  | .integer value => .ofTagged { tag := "Integer", content := some (.ofInt64 value) }
  | .text content => .ofTagged { tag := "String", content := some (.ofString content) }
  | .list items => .ofTagged { tag := "List", content := some (.array (toJsonAll items)) }
  | .function parameters =>
      .ofTagged
        { tag := "Function"
          content := some (.object
            [Json.field "params" (.array (parameters.map Json.ofString))]) }

/-- The JSON forms of snapshots. -/
def toJsonAll : List Snapshot → List Json
  | [] => []
  | item :: rest => toJson item :: toJsonAll rest

end

/-- The number of arrays and objects that may lie inside each other in what is read. -/
def nestingLimit : Nat := 127

/-- Read the parameters of a function; other fields are ignored, but every field has a name. -/
def parametersOfJson? (room : Nat) : Json → Option (List String)
  | .object fields =>
      if 2 ≤ room && Json.named fields then
        (Json.onlyOf? "params" fields).bind Json.toStrings?
      else
        Option.none
  | _ => Option.none

/-- The snapshot of a kind without items, with what belongs to it. -/
def ofScalar? (room : Nat) (tagged : Json.Tagged) : Option Snapshot :=
  match tagged.tag, tagged.content with
  | "None", Option.none => some .none
  | "None", some .null => some .none
  | "Boolean", some (.boolean value) => some (.boolean value)
  | "Integer", some content => content.toInt64?.map .integer
  | "String", some content => content.toString?.map .text
  | "Function", some content => (parametersOfJson? room content).map .function
  | _, _ => Option.none

mutual

/--
Read a snapshot in which at most `room` arrays and objects lie inside each other.
The object or array of its tag takes up one of them.
-/
def ofJson? : (room : Nat) → (kept : Bool) → Json → Option Snapshot
  | 0, _, _ => Option.none
  | room + 1, kept, json => do
      let tagged ← json.toTagged? kinds room kept
      ofTagged? room (kept || json.contentFirst) tagged

/-- Make a snapshot of a kind with what belongs to it; the array of a list takes up room, too. -/
def ofTagged? : (room : Nat) → (kept : Bool) → Json.Tagged → Option Snapshot
  | 0, _, tagged => ofScalar? 0 tagged
  | room + 1, kept, tagged =>
      match tagged.tag, tagged.content with
      | "List", some (.array items) => (items.mapM (ofJson? room kept)).map .list
      | _, _ => ofScalar? (room + 1) tagged

end

/-- The JSON text of a snapshot. -/
def toText (snapshot : Snapshot) : String :=
  snapshot.toJson.toText

/-- Read a snapshot from JSON text. -/
def ofText? (text : String) : Option Snapshot :=
  (Json.ofText? text).bind (ofJson? nestingLimit false)

end CellScript.Snapshot
