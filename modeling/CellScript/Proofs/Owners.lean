import CellScript.Proofs.Assignments

namespace CellScript

/-!
# Owners of assigned elements

An indexed assignment evaluates its owner, then its index, and only then is it settled
what is overwritten.  A slot is one of the list that the owner had come to.  A position in
a text belongs to the variable, so it is the cell that the name means once the index has
been evaluated; an index that declares the name anew moves the write to another cell.
-/

/-! ## Names on growing frames -/

/-- What a name means on grown frames it meant before, or the newest frame has bound it anew. -/
theorem FrameStack.GrowsTo.lookup?_cases
    {before after : FrameStack}
    {name : String}
    {cell : Cell}
    (grows : before.GrowsTo after)
    (found : after.lookup? name = some cell) :
    before.lookup? name = some cell ∨
      (after.top.lookup? name = some cell ∧ before.top.lookup? name ≠ some cell) := by
  have binds := grows.binds name
  simp only [FrameStack.lookup?, FrameStack.frames, List.findSome?_cons, grows.below] at found ⊢
  cases bound : after.top.lookup? name with
  | none =>
      rw [bound] at binds found
      cases boundBefore : before.top.lookup? name with
      | none => exact .inl found
      | some old => cases binds (by rw [boundBefore]; rfl)
  | some new =>
      rw [bound] at found
      cases found
      by_cases same : before.top.lookup? name = some cell
      · exact .inl (by rw [same])
      · exact .inr ⟨rfl, same⟩

/-- Evaluation up to a return signal lets only the newest frame grow. -/
theorem growsTo_of_catchReturn
    {limits : Limits}
    {fuel : Nat}
    {node : Node}
    {machine after : Machine}
    {cell : Cell}
    (ended : Action.catchReturn (evaluate limits fuel node) machine = .done cell after) :
    machine.frames.GrowsTo after.frames := by
  have left := congrArg Ending.machine? ended
  rw [Action.machine?_catchReturn] at left
  exact .of_evaluate left

/-! ## Cells that nothing refers to -/

/-- A heap has a cell with some value to which neither a name nor a slot of a list refers. -/
structure Machine.Hides (machine : Machine) (hidden : Cell) (value : Value) : Prop where
  has : machine.heap.Has hidden
  holds : machine.heap.read hidden = value
  names : machine.frames.BoundAll fun cell => cell ≠ hidden
  slots : ∀ owner slot, machine.heap.HasSlot owner slot → slot ≠ hidden

namespace Machine.Hides

variable {machine : Machine} {hidden : Cell} {value made : Value}

theorem allocate
    (hides : machine.Hides hidden value)
    (others : ∀ slot, made.HasSlot slot → slot ≠ hidden) :
    Hides { machine with heap := (machine.heap.allocate made).2 } hidden value where
  has := hides.has.allocate made
  holds := (Heap.read_allocate_of_lt made hides.has).trans hides.holds
  names := hides.names
  slots owner slot hasSlot := by
    rcases hasSlot.of_allocate with ⟨_, isNew⟩ | isOld
    · exact others slot isNew
    · exact hides.slots owner slot isOld

theorem write
    (hides : machine.Hides hidden value)
    {written : Cell}
    (other : written ≠ hidden)
    (others : ∀ slot, made.HasSlot slot → slot ≠ hidden) :
    Hides { machine with heap := machine.heap.write written made } hidden value where
  has := by
    rw [Heap.has_write]
    exact hides.has
  holds := (Heap.read_write_of_ne made other.symm).trans hides.holds
  names := hides.names
  slots owner slot hasSlot := by
    rcases hasSlot.of_write with isNew | isOld
    · exact others slot isNew
    · exact hides.slots owner slot isOld

/-- On a closed machine nothing refers to a cell that was just made for a value without slots. -/
theorem of_allocate
    (closed : machine.Closed)
    (noSlots : ∀ slot, ¬value.HasSlot slot) :
    Hides { machine with heap := (machine.heap.allocate value).2 }
      (machine.heap.allocate value).1 value where
  has := Heap.has_allocate _ _
  holds := Heap.read_allocate_self _ _
  names := closed.names.mono fun _ has same => Nat.lt_irrefl _ (same ▸ has)
  slots owner slot hasSlot := by
    rcases hasSlot.of_allocate with ⟨_, isNew⟩ | isOld
    · exact absurd isNew (noSlots slot)
    · exact fun same => Nat.lt_irrefl _ (same ▸ closed.slots owner slot isOld)

end Machine.Hides

/-- All cells may be held but one, which nothing refers to. -/
def custodyOfOthers (hidden : Cell) (value : Value) : Custody where
  invariant machine := machine.Hides hidden value
  relates _ exit _ := ∀ cell, exit = some (.returning cell) → cell ≠ hidden
  holds _ cell := cell ≠ hidden

/-- All nodes may be evaluated without holding a cell that nothing refers to. -/
theorem custodyOfOthers.lawful
    (hidden : Cell)
    (value : Value) :
    (custodyOfOthers hidden value).Lawful fun _ => True where
  stays _ := nofun
  joins _ later := later
  fails _ _ := nofun
  returns _ _ other := by
    rintro _ ⟨⟩
    exact other
  takes _ := nofun
  carries accepted := accepted.relates _ rfl
  keeps _ other := other
  names hides found := hides.names.of_lookup? found
  slots hides _ isList isSlot := hides.slots _ _ ⟨_, isList, isSlot⟩
  makes {machine made} hides isMade := by
    have others : ∀ slot, made.HasSlot slot → slot ≠ hidden := by
      rintro slot ⟨slots, rfl, isSlot⟩
      exact isMade.held_of_list slot isSlot
    exact ⟨⟨hides.allocate others, nofun⟩, fun same => Nat.lt_irrefl _ (same ▸ hides.has)⟩
  assigns _ hides other _ := ⟨hides.write other (hides.slots _), nofun⟩
  splices _ hides other _ :=
    ⟨hides.write other fun slot isSlot => hides.slots _ slot (Heap.HasSlot.of_spliced isSlot),
      nofun⟩
  declares hides other :=
    ⟨⟨hides.has, hides.holds, hides.names.declare _ other, hides.slots⟩, nofun⟩
  prints hides _ :=
    Action.printLine_meetsAt
      ⟨⟨hides.has, hides.holds, hides.names, hides.slots⟩, nofun⟩
      ⟨⟨hides.has, hides.holds, hides.names, hides.slots⟩, nofun⟩
  pushes hides := ⟨hides.has, hides.holds, hides.names.push, hides.slots⟩
  pops _ accepted :=
    ⟨⟨accepted.invariant.has, accepted.invariant.holds, accepted.invariant.names.pop,
      accepted.invariant.slots⟩, accepted.relates⟩
  goodMembers _ _ _ _ := trivial
  goodOperands _ _ _ _ := trivial
  goodBody _ _ := trivial

/-- Evaluation leaves a cell that nothing refers to as it is, however it ends. -/
theorem Machine.Hides.of_evaluate
    {machine after : Machine}
    {hidden : Cell}
    {value : Value}
    {limits : Limits}
    {fuel : Nat}
    {node : Node}
    (hides : machine.Hides hidden value)
    (ended : (evaluate limits fuel node machine).machine? = some after) :
    after.Hides hidden value := by
  have kept : (evaluate limits fuel node).Delivers (custodyOfOthers hidden value) :=
    (custodyOfOthers.lawful hidden value).evaluation limits fuel trivial
  obtain ⟨_, accepted⟩ := (kept machine hides).meets.of_machine? ended
  exact accepted.invariant

namespace Evaluation

/-! ## What an owner comes to -/

section

variable {limits : Limits} {fuel : Nat} {machine between : Machine} {word : String} {owner : Cell}

/-- A word as an owner comes to the cell that it means, or to a new one without a value. -/
theorem owner_cases
    (ended : Action.catchReturn (CellScript.evaluate limits fuel (.leaf (.word word))) machine =
      .done owner between) :
    (machine.frames.lookup? word = some owner ∧ between = machine) ∨
      (owner = (machine.heap.allocate .none).1 ∧
        between = { machine with heap := (machine.heap.allocate .none).2 }) := by
  cases fuel with
  | zero => cases ended
  | succ fuel =>
      rw [Action.catchReturn, CellScript.evaluate, step] at ended
      rcases leafValue_word_cases word machine with ⟨cell, bound, found⟩ | absent
      · rw [found] at ended
        cases ended
        exact .inl ⟨bound, rfl⟩
      · rw [absent] at ended
        cases ended
        exact .inr ⟨rfl, rfl⟩

/-- An owner that is a list once the index is evaluated is the cell that the word meant before. -/
theorem bound_of_list
    {known : Machine}
    {index : Cell}
    {indexNode : Node}
    {slots : List Cell}
    (closed : machine.Closed)
    (ownerEnds : Action.catchReturn (CellScript.evaluate limits fuel (.leaf (.word word))) machine =
      .done owner between)
    (indexEnds : Action.catchReturn (CellScript.evaluate limits fuel indexNode) between =
      .done index known)
    (isList : known.heap.read owner = .list slots) :
    machine.frames.lookup? word = some owner := by
  rcases owner_cases ownerEnds with ⟨bound, -⟩ | ⟨rfl, rfl⟩
  · exact bound
  · -- Nothing refers to a cell made for a lacking value, so the index cannot make it a list.
    have noSlots : ∀ slot, ¬Value.none.HasSlot slot := by rintro _ ⟨_, ⟨⟩, _⟩
    have hides := Machine.Hides.of_allocate closed noSlots
    have left := congrArg Ending.machine? indexEnds
    rw [Action.machine?_catchReturn] at left
    have stillAbsent := (hides.of_evaluate left).holds
    rw [isList] at stillAbsent
    cases stillAbsent

end

/-! ## What an indexed assignment overwrites -/

/-- How the owner, the index and the value of an indexed assignment come to their ends in turn. -/
structure IndexedOperands
    (limits : Limits)
    (fuel : Nat)
    (word : String)
    (indexNode : Node)
    (rest : List Node)
    (machine : Machine) where
  owner : Cell
  between : Machine
  index : Cell
  known : Machine
  source : Cell
  final : Machine
  ownerEnds :
    Action.catchReturn (CellScript.evaluate limits fuel (.leaf (.word word))) machine =
      .done owner between
  indexEnds :
    Action.catchReturn (CellScript.evaluate limits fuel indexNode) between = .done index known
  valueEnds :
    optional (CellScript.evaluate limits fuel) rest.head? known = .done source final

namespace IndexedOperands

variable
  {limits : Limits} {fuel : Nat} {word : String} {indexNode : Node} {rest : List Node}
  {machine : Machine} (operands : IndexedOperands limits fuel word indexNode rest machine)

/-- A cell is the one that the owner meant to begin with, or a slot of the list in that cell. -/
def IsOwned (cell : Cell) : Prop :=
  ∃ denoted,
    machine.frames.lookup? word = some denoted ∧
      (cell = denoted ∨ operands.known.heap.HasSlot denoted cell)

/--
The owner has no slot at the index, and its name means a cell to which evaluating the
index has bound it anew.
-/
structure IsBoundAnew (cell : Cell) : Prop where
  noSlot : operands.known.heap.slot? operands.owner operands.index = none
  now : operands.known.frames.top.lookup? word = some cell
  before : machine.frames.top.lookup? word ≠ some cell

variable {operands}

/-- What was settled on is owned, unless the index has bound the name of the owner anew. -/
theorem isOwned_or_isBoundAnew
    {written : Cell}
    {manner : Manner}
    (closed : machine.Closed)
    (settles : Settles limits fuel (.form "index" [.leaf (.word word), indexNode]) machine written
      manner operands.known) :
    operands.IsOwned written ∨ operands.IsBoundAnew written := by
  have grows := (growsTo_of_catchReturn operands.ownerEnds).trans
    (growsTo_of_catchReturn operands.indexEnds)
  cases settles with
  | slot ownerEnds indexEnds inList =>
      obtain ⟨slots, isList, isSlot⟩ := exists_list_of_slot? inList
      exact .inl ⟨_, bound_of_list closed ownerEnds indexEnds isList, .inr ⟨slots, isList, isSlot⟩⟩
  | position ownerEnds indexEnds noSlot isPosition bound =>
      rcases grows.lookup?_cases bound with meant | ⟨now, before⟩
      · exact .inl ⟨written, meant, .inl rfl⟩
      · rw [operands.ownerEnds] at ownerEnds
        cases ownerEnds
        rw [operands.indexEnds] at indexEnds
        cases indexEnds
        exact .inr ⟨noSlot, now, before⟩

end IndexedOperands

/-- The operands of an indexed assignment that has settled and whose value is known. -/
theorem Settles.exists_indexedOperands
    {limits : Limits}
    {fuel : Nat}
    {word : String}
    {indexNode : Node}
    {rest : List Node}
    {machine known final : Machine}
    {written source : Cell}
    {manner : Manner}
    (settles : Settles limits fuel (.form "index" [.leaf (.word word), indexNode]) machine written
      manner known)
    (valueEnds : optional (CellScript.evaluate limits fuel) rest.head? known = .done source final) :
    ∃ operands : IndexedOperands limits fuel word indexNode rest machine,
      operands.known = known ∧ operands.source = source ∧ operands.final = final := by
  cases settles with
  | slot ownerEnds indexEnds | position ownerEnds indexEnds =>
      exact ⟨⟨_, _, _, known, source, final, ownerEnds, indexEnds, valueEnds⟩, rfl, rfl, rfl⟩

/--
An indexed assignment to a variable that comes to its end has evaluated the owner, the
index and the value, and then overwritten a single cell: the very cell that the variable
meant to begin with, or a slot of the list which that cell holds.  The only exception is an
index without such a slot that has bound the name anew in the newest frame: there it is the
cell to which the index has bound it.  What the value binds or assigns makes no difference.
-/
theorem indexed_assignment_writes_owner
    (limits : Limits)
    (fuel : Nat)
    (word : String)
    (indexNode : Node)
    (rest : List Node)
    {machine after : Machine}
    {result : Cell}
    (closed : machine.Closed)
    (ended :
      CellScript.evaluate limits (fuel + 1)
        (.form "set" (.form "index" [.leaf (.word word), indexNode] :: rest)) machine =
          .done result after) :
    ∃ (operands : IndexedOperands limits fuel word indexNode rest machine) (written : Cell)
      (value : Value),
      Overwrites operands.final after written value ∧
        (operands.IsOwned written ∨ operands.IsBoundAnew written) := by
  obtain ⟨target, others, written, manner, known, source, final, same, settles, valueEnds⟩ :=
    settles_of_evaluate_set ended
  cases same
  have overwrites := settles.overwrites closed valueEnds ended
  rw [operand, List.getElem?_cons_succ, ← List.head?_eq_getElem?] at valueEnds
  obtain ⟨operands, rfl, rfl, rfl⟩ := settles.exists_indexedOperands valueEnds
  exact ⟨operands, written, _, overwrites,
    IndexedOperands.isOwned_or_isBoundAnew closed settles⟩

/-- An index that binds another name to the text of the owner leaves the owner what it was. -/
theorem text_is_written_though_index_declares_alias :
    let aliased := Node.form "let" [.leaf (.word "t"), .leaf (.word "s")]
    let items := Node.form "list" [aliased, .leaf (.number 1)]
    let indexNode := Node.form "index" [items, .leaf (.number 1)]
    let target := Node.form "index" [.leaf (.word "s"), indexNode]
    let rest := [Node.leaf (.text "X")]
    let limits : Limits := { maxIterations := none }
    let text := Heap.empty.allocate (.text "abc")
    let machine : Machine :=
      { Machine.start none with
        heap := text.2
        frames := FrameStack.global.declare "s" text.1 }
    machine.Closed ∧
      ∃ result after,
        CellScript.evaluate limits 5 (.form "set" (target :: rest)) machine =
          .done result after ∧
        after.frames.lookup? "t" = some text.1 ∧
        ∃ (operands : IndexedOperands limits 4 "s" indexNode rest machine) (written : Cell)
          (value : Value),
          Overwrites operands.final after written value ∧
            (operands.IsOwned written ∨ operands.IsBoundAnew written) := by
  intro aliased items indexNode target rest limits text machine
  have noSlots : ∀ slot, (Value.text "abc").HasSlot slot → Heap.empty.Has slot := by
    rintro slot ⟨slots, ⟨⟩, isSlot⟩
  have closed : machine.Closed :=
    Machine.Closed.declare ((Machine.Closed.start none).allocate noSlots) "s"
      (Heap.has_allocate _ _)
  have ended : ∃ result after,
      CellScript.evaluate limits 5 (.form "set" (target :: rest)) machine = .done result after ∧
        after.frames.lookup? "t" = some text.1 := ⟨_, _, rfl, rfl⟩
  obtain ⟨result, after, ends, aliases⟩ := ended
  exact ⟨closed, result, after, ends, aliases,
    indexed_assignment_writes_owner limits 4 "s" indexNode rest closed ends⟩

/--
An index that binds the name of the owner to another text moves the write there: it is
neither the cell that the name meant to begin with nor a slot of a list in it.
-/
theorem index_that_declares_owner_anew_moves_write :
    ¬∀ (limits : Limits) (fuel : Nat) (word : String) (indexNode : Node) (rest : List Node)
      (machine after : Machine) (result : Cell)
      (operands : IndexedOperands limits fuel word indexNode rest machine),
      machine.Closed →
      CellScript.evaluate limits (fuel + 1)
        (.form "set" (.form "index" [.leaf (.word word), indexNode] :: rest)) machine =
          .done result after →
      ∀ cell,
        operands.final.heap.Has cell →
        after.heap.read cell ≠ operands.final.heap.read cell →
        operands.IsOwned cell := by
  intro claim
  let aliased := Node.form "let" [.leaf (.word "s"), .leaf (.word "other")]
  let items := Node.form "list" [aliased, .leaf (.number 1)]
  let indexNode := Node.form "index" [items, .leaf (.number 1)]
  let limits : Limits := { maxIterations := none }
  let text := Heap.empty.allocate (.text "abc")
  let other := text.2.allocate (.text "zzz")
  let machine : Machine :=
    { Machine.start none with
      heap := other.2
      frames := (FrameStack.global.declare "s" text.1).declare "other" other.1 }
  have noSlots (content : String) (heap : Heap) :
      ∀ slot, (Value.text content).HasSlot slot → heap.Has slot := by
    rintro slot ⟨slots, ⟨⟩, isSlot⟩
  have closed : machine.Closed := by
    have made : Machine.Closed { Machine.start none with heap := other.2 } :=
      ((Machine.Closed.start none).allocate (noSlots _ _)).allocate (noSlots _ _)
    have hasText : other.2.Has text.1 := (Heap.has_allocate _ _).allocate _
    exact (made.declare "s" hasText).declare "other" (Heap.has_allocate _ _)
  let operands : IndexedOperands limits 4 "s" indexNode [.leaf (.text "X")] machine :=
    { owner := text.1, between := machine, index := _, known := _, source := _, final := _
      ownerEnds := rfl, indexEnds := rfl, valueEnds := rfl }
  obtain ⟨result, after, ended⟩ : ∃ result after,
      CellScript.evaluate limits 5 (.form "set" [.form "index" [.leaf (.word "s"), indexNode],
        .leaf (.text "X")]) machine = .done result after := ⟨_, _, rfl⟩
  have written : after.heap.read other.1 = .text "zXz" := by
    have written : (CellScript.evaluate limits 5 (.form "set" [.form "index"
        [.leaf (.word "s"), indexNode], .leaf (.text "X")]) machine).machine?.map
          (fun after => after.heap.read other.1) = some (.text "zXz") := by
      decide +kernel
    rw [ended] at written
    exact Option.some.inj written
  have has : operands.final.heap.Has other.1 := by
    have size : operands.final.heap.size = 7 := rfl
    unfold Heap.Has
    rw [size]
    decide
  have changed : after.heap.read other.1 ≠ operands.final.heap.read other.1 := by
    have unwritten : operands.final.heap.read other.1 = .text "zzz" := rfl
    rw [written, unwritten]
    decide
  obtain ⟨denoted, bound, owned⟩ :=
    claim limits 4 "s" indexNode _ machine after result operands closed ended other.1 has changed
  have meant : machine.frames.lookup? "s" = some text.1 := rfl
  rw [meant] at bound
  cases bound
  rcases owned with same | ⟨slots, isList, -⟩
  · cases same
  · have isText : operands.known.heap.read text.1 = .text "abc" := rfl
    rw [isText] at isList
    cases isList

end Evaluation

end CellScript
