import CellScript.Outcome
import CellScript.Proofs.JsonText

namespace CellScript

/-!
# Snapshots and outcomes read from their text

A snapshot is read back from the text it was written to, if the arrays and objects in
that text do not lie too deep inside each other, and otherwise not at all.  An outcome
puts one more object around its snapshot, so the snapshot in it has less room.
-/

/-! ## Tagged values and texts -/

namespace Json

/-- A tagged value is read back, whatever room there is. -/
theorem toTagged?_ofTagged
    (kinds : List String)
    (room : Nat)
    (kept : Bool)
    (tagged : Tagged) :
    (ofTagged tagged).toTagged? kinds room kept = some tagged := by
  obtain ⟨tag, content?⟩ := tagged
  cases content? <;>
    simp [ofTagged, toTagged?, onlyOf?, valuesOf, field, named, ofString, nesting, fieldTag?,
      contentFirst]

/-- A tag is written in front of what belongs to it. -/
@[simp]
theorem contentFirst_ofTagged
    (tagged : Tagged) :
    (ofTagged tagged).contentFirst = false := by
  obtain ⟨tag, content?⟩ := tagged
  cases content? <;> simp [ofTagged, contentFirst, field]

/-- A tagged value lies one level deeper than its content. -/
theorem nesting_ofTagged
    (tagged : Tagged) :
    (ofTagged tagged).nesting = (tagged.content.map nesting).getD 0 + 1 := by
  obtain ⟨tag, content?⟩ := tagged
  cases content? <;> simp [ofTagged, nesting, nestingOfFields, field, ofString]

/-- A tagged value is printed exactly if its content is. -/
theorem isExact_ofTagged
    {tagged : Tagged}
    (content : ∀ content ∈ tagged.content, content.isExact = true) :
    (ofTagged tagged).isExact = true := by
  obtain ⟨tag, content?⟩ := tagged
  cases content? with
  | none => rfl
  | some value => simp [ofTagged, isExact, haveExact, field, ofString, content value rfl]

theorem toStrings?_array
    (contents : List String) :
    toStrings? (.array (contents.map ofString)) = some contents := by
  induction contents with
  | nil => rfl
  | cons content rest inductionHypothesis =>
      simp only [toStrings?, List.map_cons, List.mapM_cons] at inductionHypothesis ⊢
      simp [inductionHypothesis, ofString, toString?]

theorem isExact_strings
    (contents : List String) :
    isExact (.array (contents.map ofString)) = true := by
  induction contents with
  | nil => rfl
  | cons content rest inductionHypothesis => exact inductionHypothesis

theorem nesting_strings
    (contents : List String) :
    nesting (.array (contents.map ofString)) = 1 := by
  induction contents with
  | nil => rfl
  | cons content rest inductionHypothesis =>
      simpa [nesting, nestingOfItems, ofString] using inductionHypothesis

end Json

/-! ## Snapshots -/

namespace Snapshot

mutual

/-- The JSON form of a snapshot holds nothing but what is read back exactly. -/
theorem isExact_toJson :
    (snapshot : Snapshot) → snapshot.toJson.isExact = true
  | .none => rfl
  | .boolean _ => rfl
  | .integer _ => rfl
  | .text _ => rfl
  | .list items => by
      rw [toJson]
      apply Json.isExact_ofTagged
      rintro _ ⟨⟩
      exact areExact_toJsonAll items
  | .function parameters => by
      rw [toJson]
      apply Json.isExact_ofTagged
      rintro _ ⟨⟩
      have strings := Json.isExact_strings parameters
      simp [Json.isExact, Json.haveExact, Json.field] at strings ⊢
      exact strings

theorem areExact_toJsonAll :
    (items : List Snapshot) → Json.areExact (toJsonAll items) = true
  | [] => rfl
  | item :: rest => by
      simp [toJsonAll, Json.areExact, isExact_toJson item, areExact_toJsonAll rest]

end

/-- The JSON form of a list lies two levels deeper than its items. -/
theorem nesting_list
    (items : List Snapshot) :
    (toJson (.list items)).nesting = Json.nestingOfItems (toJsonAll items) + 2 := by
  rw [toJson, Json.nesting_ofTagged]
  rfl

theorem nesting_function
    (parameters : List String) :
    (toJson (.function parameters)).nesting = 3 := by
  have strings := Json.nesting_strings parameters
  rw [toJson, Json.nesting_ofTagged]
  simp [Json.nesting, Json.nestingOfFields, Json.field] at strings ⊢
  exact strings

/-- A snapshot takes up one level for its tag at least. -/
theorem nesting_pos
    (snapshot : Snapshot) :
    0 < snapshot.toJson.nesting := by
  cases snapshot <;> simp [toJson, Json.nesting_ofTagged]

/-- Reading the JSON form of a snapshot comes to reading what its tag has with it. -/
theorem ofJson?_ofTagged
    (room : Nat)
    (kept : Bool)
    (tagged : Json.Tagged) :
    ofJson? (room + 1) kept (.ofTagged tagged) = ofTagged? room kept tagged := by
  simp [ofJson?, Json.toTagged?_ofTagged]

/-- A tag other than that of lists is read as a scalar or a function. -/
theorem ofTagged?_of_noList
    {tagged : Json.Tagged}
    (noList : tagged.tag ≠ "List")
    (room : Nat)
    (kept : Bool) :
    ofTagged? room kept tagged = ofScalar? room tagged := by
  cases room with
  | zero => rfl
  | succ room =>
      rw [ofTagged?]
      split
      · next isList _ => exact absurd isList noList
      · rfl

/-- The parameters of a function take up two levels. -/
theorem parametersOfJson?_field
    (room : Nat)
    (parameters : List String) :
    parametersOfJson? room
        (.object [Json.field "params" (.array (parameters.map Json.ofString))]) =
      if 2 ≤ room then some parameters else Option.none := by
  by_cases fits : 2 ≤ room
  · simp [parametersOfJson?, fits, Json.named, Json.field, Json.onlyOf?, Json.valuesOf,
      Json.toStrings?_array]
  · simp [parametersOfJson?, fits]

mutual

/-- A snapshot is read back from its JSON form where there is room for it, and nowhere else. -/
theorem ofJson?_toJson :
    (snapshot : Snapshot) →
    ∀ (room : Nat) (kept : Bool),
      ofJson? room kept snapshot.toJson =
        if snapshot.toJson.nesting ≤ room then some snapshot else Option.none
  | snapshot, 0, kept => by
      have positive := snapshot.nesting_pos
      rw [if_neg (by omega), ofJson?]
  | .none, room + 1, kept => by
      rw [toJson, ofJson?_ofTagged, ofTagged?_of_noList (by decide), Json.nesting_ofTagged]
      simp [ofScalar?]
  | .boolean _, room + 1, kept => by
      rw [toJson, ofJson?_ofTagged, ofTagged?_of_noList (by simp), Json.nesting_ofTagged]
      simp [ofScalar?, Json.nesting]
  | .integer value, room + 1, kept => by
      have read : (Json.ofInt64 value).toInt64? = some value := Decimal.toInt64?_toInt value
      have flat : (Json.ofInt64 value).nesting = 0 := rfl
      rw [toJson, ofJson?_ofTagged, ofTagged?_of_noList (by simp), Json.nesting_ofTagged]
      simp [ofScalar?, read, flat]
  | .text _, room + 1, kept => by
      rw [toJson, ofJson?_ofTagged, ofTagged?_of_noList (by simp), Json.nesting_ofTagged]
      simp [ofScalar?, Json.ofString, Json.toString?, Json.nesting]
  | .function parameters, room + 1, kept => by
      rw [nesting_function, toJson, ofJson?_ofTagged, ofTagged?_of_noList (by simp)]
      simp [ofScalar?, parametersOfJson?_field]
  | .list items, room + 1, kept => by
      rw [nesting_list, toJson, ofJson?_ofTagged]
      cases room with
      | zero => simp [ofTagged?, ofScalar?]
      | succ room =>
          simp only [ofTagged?, mapM_ofJson?_toJsonAll items room kept, Nat.add_le_add_iff_right]
          split <;> rfl

/-- Items are read back if none of them lies too deep, and otherwise none is. -/
theorem mapM_ofJson?_toJsonAll :
    (items : List Snapshot) →
    ∀ (room : Nat) (kept : Bool),
      (toJsonAll items).mapM (ofJson? room kept) =
        if Json.nestingOfItems (toJsonAll items) ≤ room then some items else Option.none
  | [], room, kept => by simp [toJsonAll, Json.nestingOfItems]
  | item :: rest, room, kept => by
      simp only [toJsonAll, List.mapM_cons, ofJson?_toJson item room kept,
        mapM_ofJson?_toJsonAll rest room kept, Json.nestingOfItems, Nat.max_le]
      by_cases itemFits : item.toJson.nesting ≤ room
      · by_cases restFits : Json.nestingOfItems (toJsonAll rest) ≤ room
        · simp [itemFits, restFits]
        · simp [itemFits, restFits]
      · simp [itemFits]

end

/-- Items that were read have no more room in their JSON forms than there was for reading. -/
theorem nestingOfItems_le_of_mapM
    {room : Nat}
    {kept : Bool}
    {jsons : List Json}
    {items : List Snapshot}
    (read : jsons.mapM (ofJson? room kept) = some items)
    (each : ∀ json item, ofJson? room kept json = some item → item.toJson.nesting ≤ room) :
    Json.nestingOfItems (toJsonAll items) ≤ room := by
  induction jsons generalizing items with
  | nil =>
      cases read
      exact Nat.zero_le room
  | cons json rest inductionHypothesis =>
      rw [List.mapM_cons] at read
      obtain ⟨item, readItem, more⟩ := Option.bind_eq_some_iff.mp read
      obtain ⟨others, readOthers, same⟩ := Option.bind_eq_some_iff.mp more
      cases same
      rw [toJsonAll, Json.nestingOfItems]
      exact Nat.max_le.mpr ⟨each json item readItem, inductionHypothesis readOthers⟩

/-- What is read as a scalar or a function lies no deeper than there was room for reading. -/
theorem nesting_le_of_ofScalar?
    {room : Nat}
    {tagged : Json.Tagged}
    {snapshot : Snapshot}
    (read : ofScalar? room tagged = some snapshot) :
    snapshot.toJson.nesting ≤ room + 1 := by
  unfold ofScalar? at read
  split at read
  · cases read
    exact Nat.le_add_left 1 room
  · cases read
    exact Nat.le_add_left 1 room
  · cases read
    exact Nat.le_add_left 1 room
  · obtain ⟨value, _, rfl⟩ := Option.map_eq_some_iff.mp read
    exact Nat.le_add_left 1 room
  · obtain ⟨content, _, rfl⟩ := Option.map_eq_some_iff.mp read
    exact Nat.le_add_left 1 room
  · next content _ _ =>
      obtain ⟨parameters, readParameters, rfl⟩ := Option.map_eq_some_iff.mp read
      have fits : 2 ≤ room := by
        unfold parametersOfJson? at readParameters
        split at readParameters
        · split at readParameters
          · next fits => exact of_decide_eq_true (Bool.and_eq_true_iff.mp fits).1
          · cases readParameters
        · cases readParameters
      rw [nesting_function]
      omega
  · cases read

/-- What is read where there is some room is written in no more room than that. -/
theorem nesting_le_of_ofJson?
    {room : Nat}
    {kept : Bool}
    {json : Json}
    {snapshot : Snapshot}
    (read : ofJson? room kept json = some snapshot) :
    snapshot.toJson.nesting ≤ room := by
  -- A list within the value is read with two levels less, hence the strong induction.
  induction room using Nat.strongRecOn generalizing kept json snapshot with
  | _ room inductionHypothesis =>
      cases room with
      | zero =>
          rw [ofJson?] at read
          cases read
      | succ room =>
          rw [ofJson?] at read
          obtain ⟨tagged, _, readTagged⟩ := Option.bind_eq_some_iff.mp read
          cases room with
          | zero => exact nesting_le_of_ofScalar? readTagged
          | succ room =>
              rw [ofTagged?] at readTagged
              split at readTagged
              · obtain ⟨items, readItems, rfl⟩ := Option.map_eq_some_iff.mp readTagged
                have each := nestingOfItems_le_of_mapM readItems fun _ _ readItem =>
                  inductionHypothesis room (by omega) readItem
                rw [nesting_list]
                omega
              · exact nesting_le_of_ofScalar? readTagged

/-- The text of a snapshot is read back if its arrays and objects do not lie too deep. -/
theorem ofText?_toText
    (snapshot : Snapshot) :
    ofText? snapshot.toText =
      if snapshot.toJson.nesting ≤ nestingLimit then some snapshot else Option.none := by
  rw [ofText?, toText, Json.ofText?_toText snapshot.isExact_toJson]
  exact snapshot.ofJson?_toJson nestingLimit false

end Snapshot

/-! ## Outcomes -/

namespace Outcome

/-- The outcome of a run is printed exactly. -/
theorem isExact_toJson
    (outcome : Outcome) :
    outcome.toJson.isExact = true := by
  have strings := Json.isExact_strings outcome.output
  simp [toJson, Json.isExact, Json.haveExact, Json.field, outcome.value.isExact_toJson]
    at strings ⊢
  exact strings

/-- The text of an outcome is read back if one level less is enough for its snapshot. -/
theorem ofText?_toText
    (outcome : Outcome) :
    ofText? outcome.toText =
      if outcome.value.toJson.nesting < Snapshot.nestingLimit then some outcome else none := by
  rw [ofText?, toText, Json.ofText?_toText outcome.isExact_toJson]
  have limit : Snapshot.nestingLimit = 127 := rfl
  have read := outcome.value.ofJson?_toJson (Snapshot.nestingLimit - 1) false
  have parts :
      ofJson? outcome.toJson =
        ofParts? outcome.value.toJson (.array (outcome.output.map Json.ofString)) := by
    simp [toJson, ofJson?, Json.named, Json.field, Json.onlyOf?, Json.valuesOf]
  rw [Option.bind_some, parts, ofParts?, read, Json.toStrings?_array]
  by_cases fits : outcome.value.toJson.nesting < Snapshot.nestingLimit
  · rw [if_pos fits, if_pos (Nat.le_sub_one_of_lt fits)]
    rfl
  · rw [if_neg fits, if_neg (by omega)]
    rfl

end Outcome

/--
A snapshot is read back from its text if fewer than 128 arrays and objects lie inside
each other there, and an outcome if fewer than 127 do so in its snapshot.  Whatever
text a snapshot was read from, it is read back from its own text.
-/
theorem Outcome.snapshots_and_outcomes_read_back :
    (∀ snapshot : Snapshot,
      snapshot.toJson.nesting < 128 →
      Snapshot.ofText? snapshot.toText = some snapshot) ∧
    (∀ (snapshot : Snapshot) (output : List String),
      snapshot.toJson.nesting < 127 →
      ofText? (toText { value := snapshot, output }) = some { value := snapshot, output }) ∧
    ∀ text snapshot,
      Snapshot.ofText? text = some snapshot →
      Snapshot.ofText? snapshot.toText = some snapshot := by
  refine ⟨?_, ?_, ?_⟩
  · intro snapshot shallow
    rw [Snapshot.ofText?_toText]
    exact if_pos (Nat.le_of_lt_succ shallow)
  · intro snapshot output shallow
    rw [ofText?_toText]
    exact if_pos shallow
  · intro text snapshot read
    obtain ⟨json, _, readJson⟩ := Option.bind_eq_some_iff.mp read
    rw [Snapshot.ofText?_toText]
    exact if_pos (Snapshot.nesting_le_of_ofJson? readJson)

/-- An outcome as deep as may be is read back, with marks that are escaped in its output. -/
theorem Outcome.deepest_outcome_reads_back :
    let snapshot := Nat.repeat (fun inner => Snapshot.list [inner]) 62 (.list [])
    let outcome : Outcome := { value := snapshot, output := ["\"", "\\\n"] }
    snapshot.toJson.nesting = 126 ∧
      Snapshot.ofText? snapshot.toText = some snapshot ∧
      ofText? outcome.toText = some outcome := by
  intro snapshot outcome
  have deep : snapshot.toJson.nesting = 126 := by decide +kernel
  obtain ⟨snapshots, outcomes, _⟩ := snapshots_and_outcomes_read_back
  refine ⟨deep, snapshots snapshot ?_, outcomes snapshot ["\"", "\\\n"] ?_⟩
  · omega
  · omega

/-- A snapshot can be as deep as may be read and too deep for the outcome that has it. -/
theorem Outcome.snapshot_at_the_limit_is_too_deep :
    let snapshot := Nat.repeat (fun inner => Snapshot.list [inner]) 63 (.integer 1)
    snapshot.toJson.nesting = 127 ∧
      Snapshot.ofText? snapshot.toText = some snapshot ∧
      ofText? (toText { value := snapshot, output := [] }) = none := by
  intro snapshot
  have deep : snapshot.toJson.nesting = 127 := by decide +kernel
  refine ⟨deep, ?_, ?_⟩
  · rw [Snapshot.ofText?_toText]
    exact if_pos (Nat.le_of_eq deep)
  · rw [ofText?_toText]
    exact if_neg (Nat.not_lt.mpr (Nat.le_of_eq deep.symm))

end CellScript
