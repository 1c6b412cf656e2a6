import CellScript.Program
import CellScript.Tree.Encoding

namespace CellScript

/-!
# Trees read from their JSON form

Nothing in the JSON form of a node says whether it is a leaf or a block, and an array
of two is tried as a leaf first.  But the JSON form of a block never begins with the
kind of a leaf: its members are objects and arrays, and a kind is a text or a number.
-/

/-! ## Tagged values -/

namespace Json

@[simp]
theorem lastOf?_type_of_pair
    (tag content : Json) :
    lastOf? "type" [field "type" tag, field "value" content] = some tag := by
  simp [lastOf?, valuesOf, field]

@[simp]
theorem lastOf?_value_of_pair
    (tag content : Json) :
    lastOf? "value" [field "type" tag, field "value" content] = some content := by
  simp [lastOf?, valuesOf, field]

end Json

/-! ## Leaves -/

namespace Leaf

/-- A leaf is read back from the name of its kind and its value. -/
theorem ofParts?_kind
    (leaf : Leaf) :
    ofParts? leaf.kind leaf.valueJson = some leaf := by
  cases leaf with
  | word name => rfl
  | text content => rfl
  | number value =>
      have read : (Json.ofInt64 value).toInt64? = some value := Decimal.toInt64?_toInt value
      simp [ofParts?, kind, valueJson, read]

/-- A leaf is read back from its JSON form. -/
theorem ofJson?_toJson
    (leaf : Leaf) :
    ofJson? leaf.toJson = some leaf := by
  simp only [toJson, Json.ofTagged, ofJson?, Json.lastOf?_type_of_pair,
    Json.lastOf?_value_of_pair, Option.bind_some, kindOfField?, Json.ofString, Json.fieldTag?]
  exact ofParts?_kind leaf

end Leaf

/-! ## Nodes -/

namespace Node

/-- No node is written as what can stand at the head of a leaf that is an array. -/
theorem headTag?_toJson
    (node : Node)
    (kinds : List String)
    (kept : Bool) :
    (toJson node).headTag? kinds kept = none := by
  cases node with
  | leaf value => simp only [toJson, Leaf.toJson, Json.ofTagged, Json.headTag?]
  | block members => simp only [toJson, Json.headTag?]

/-- A block is never read as a leaf. -/
theorem leaf_ofJson?_array
    (members : List Node) :
    Leaf.ofJson? (.array (toJsonAll members)) = none := by
  rcases members with _ | ⟨first, _ | ⟨second, _ | ⟨third, rest⟩⟩⟩
  · rfl
  · rfl
  · simp [toJsonAll, Leaf.ofJson?, headTag?_toJson]
  · rfl

/-- A leaf is read back from its JSON form. -/
theorem ofJson?_leaf
    (value : Leaf) :
    ofJson? (toJson (.leaf value)) = some (.leaf value) := by
  have read := Leaf.ofJson?_toJson value
  simp only [Leaf.toJson, Json.ofTagged] at read
  simp only [toJson, Leaf.toJson, Json.ofTagged, ofJson?, read, Option.map_some]

mutual

/-- A node is read back from its JSON form. -/
theorem ofJson?_toJson :
    (node : Node) → ofJson? (toJson node) = some node
  | .leaf value => ofJson?_leaf value
  | .block members => by
      simp only [toJson, ofJson?, leaf_ofJson?_array, ofJsonAll?_toJsonAll members,
        Option.map_some]

/-- Members are read back from their JSON forms. -/
theorem ofJsonAll?_toJsonAll :
    (members : List Node) → ofJsonAll? (toJsonAll members) = some members
  | [] => rfl
  | member :: rest => by
      simp [toJsonAll, ofJsonAll?, ofJson?_toJson member, ofJsonAll?_toJsonAll rest]

end

/--
A tree is read back from its JSON form: every leaf in it is read as that leaf, and no
block as a leaf.  So a script can be run from the JSON form of its tree just as well.
-/
theorem json_reads_back :
    (∀ members, membersOfJson? (toJson (.block members)) = some members) ∧
    (∀ node, ofJson? (toJson node) = some node) ∧
    (∀ value, Leaf.ofJson? (toJson (.leaf value)) = some value) ∧
    (∀ members, Leaf.ofJson? (toJson (.block members)) = none) ∧
    ∀ source members,
      ofSource source = .ok members →
      ∃ decoded,
        membersOfJson? (toJson (.block members)) = some decoded ∧
        ∀ limits fuel machine,
          Program.execute limits fuel decoded machine = Program.run limits fuel source machine := by
  refine ⟨ofJsonAll?_toJsonAll, ofJson?_toJson, ?_, ?_, ?_⟩
  · intro value
    rw [toJson]
    exact Leaf.ofJson?_toJson value
  · intro members
    rw [toJson]
    exact leaf_ofJson?_array members
  · intro source members read
    refine ⟨members, ofJsonAll?_toJsonAll members, ?_⟩
    intro limits fuel machine
    simp only [Program.run, read]

/-- A script is run from its JSON form, though one of its blocks is a pair as a leaf may be. -/
theorem pair_in_script_reads_back :
    let source := "(list type (\"type\" 1))"
    let pair := block [.leaf (.text "type"), .leaf (.number 1)]
    let members := [block [.leaf (.word "list"), .leaf (.word "type"), pair]]
    ofSource source = .ok members ∧
      Leaf.ofJson? (toJson pair) = none ∧
      ∃ decoded,
        membersOfJson? (toJson (.block members)) = some decoded ∧
        ∀ limits fuel machine,
          Program.execute limits fuel decoded machine =
            Program.run limits fuel source machine := by
  intro source pair members
  have read : ofSource source = .ok members := by
    have found : (ofSource source).toOption = some members := by decide +kernel
    cases result : ofSource source with
    | ok others =>
        rw [result] at found
        exact congrArg Except.ok (Option.some.inj found)
    | error fault =>
        rw [result] at found
        cases found
  obtain ⟨_, _, _, noLeaf, runs⟩ := json_reads_back
  exact ⟨read, noLeaf _, runs source members read⟩

end Node

end CellScript
