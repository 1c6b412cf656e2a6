import CellScript.Proofs.ClosedHeaps
import CellScript.Proofs.CutShort

namespace CellScript

/-!
# Assignments

An assignment first settles which cell it overwrites, and only then evaluates the value
that it assigns.  Overwriting that one cell is all that it does itself: the rest is done
by its operands, and an assignment that is left early has written nothing.
-/

namespace Evaluation

/-! ## What is overwritten, and how -/

/-- How the value of a cell is changed by an assignment. -/
inductive Manner where
  /-- The assigned value takes its place. -/
  | copied
  /-- The assigned value is spliced into the text that the cell holds. -/
  | spliced (position : Nat)
  deriving Repr, DecidableEq

/-- What an assignment from a source leaves in the cell that it overwrites. -/
def Manner.value (heap : Heap) (written source : Cell) : Manner → Value
  | .copied => heap.read source
  | .spliced position => Evaluation.spliced heap (heap.read written) position (heap.read source)

/--
On one machine, a target settles which cell an assignment overwrites, and how.  Settling
ends on another machine when it evaluates an owner and an index.
-/
inductive Settles (limits : Limits) (fuel : Nat) :
    (target : Node) → Machine → (written : Cell) → Manner → Machine → Prop where
  /-- A name settles on the cell that it means. -/
  | name
      {name : String}
      {machine : Machine}
      {cell : Cell}
      (bound : machine.frames.lookup? name = some cell) :
      Settles limits fuel (.leaf (.word name)) machine cell .copied machine
  /-- An owner and an index settle on the slot of a list. -/
  | slot
      {ownerNode indexNode : Node}
      {machine between known : Machine}
      {owner index cell : Cell}
      (ownerEnds : Action.catchReturn (evaluate limits fuel ownerNode) machine =
        .done owner between)
      (indexEnds : Action.catchReturn (evaluate limits fuel indexNode) between =
        .done index known)
      (inList : known.heap.slot? owner index = some cell) :
      Settles limits fuel (.form "index" [ownerNode, indexNode]) machine cell .copied known
  /-- Where there is no slot, a name and an index settle on the cell that the name means by then. -/
  | position
      {name : String}
      {indexNode : Node}
      {machine between known : Machine}
      {owner index cell : Cell}
      {position : Nat}
      (ownerEnds : Action.catchReturn (evaluate limits fuel (.leaf (.word name))) machine =
        .done owner between)
      (indexEnds : Action.catchReturn (evaluate limits fuel indexNode) between =
        .done index known)
      (noSlot : known.heap.slot? owner index = none)
      (isPosition : (known.heap.read index).position? = some position)
      (bound : known.frames.lookup? name = some cell) :
      Settles limits fuel (.form "index" [.leaf (.word name), indexNode]) machine cell
        (.spliced position) known

/-- The nodes that settling a target evaluates, in order. -/
def targetOperands (target : Node) : List Node :=
  match indexParts? target with
  | some (ownerNode, indexNode) => [ownerNode, indexNode]
  | none => []

/-- The nodes that an assignment evaluates when it comes to its end, in order. -/
def assignmentOperands : (operands : List Node) → List Node
  | [] => []
  | target :: rest => targetOperands target ++ rest.take 1

/--
Evaluating nodes in turn, each on the machine that the one before has left behind,
leads from one machine to another.  Nodes may end as they like.
-/
inductive Leads (evaluate : Evaluator) : List Node → Machine → Machine → Prop where
  | nil (machine : Machine) :
      Leads evaluate [] machine machine
  | cons
      {node : Node}
      {rest : List Node}
      {before between after : Machine}
      (ends : (evaluate node before).machine? = some between)
      (others : Leads evaluate rest between after) :
      Leads evaluate (node :: rest) before after

namespace Leads

variable {evaluate : Evaluator} {machine between after : Machine}

theorem append
    {front back : List Node}
    (first : Leads evaluate front machine between)
    (second : Leads evaluate back between after) :
    Leads evaluate (front ++ back) machine after := by
  induction first with
  | nil machine => exact second
  | cons ends others inductionHypothesis => exact .cons ends (inductionHypothesis second)

theorem single
    {node : Node}
    (ends : (evaluate node machine).machine? = some after) :
    Leads evaluate [node] machine after :=
  .cons ends (.nil after)

/-- Taking the return signal of a node leads to the machine that the node has left. -/
theorem catchReturn
    {node : Node}
    (ends : (Action.catchReturn (evaluate node) machine).machine? = some after) :
    Leads evaluate [node] machine after :=
  .single (by rwa [Action.machine?_catchReturn] at ends)

end Leads

/-! ## Targets -/

/-- The cell that a target means on some frames, and how it is overwritten. -/
def Target.written? (frames : FrameStack) : Target → Option (Cell × Manner)
  | .name variableName => (frames.lookup? variableName).map fun cell => (cell, .copied)
  | .slot cell => some (cell, .copied)
  | .position variableName index =>
      (frames.lookup? variableName).map fun cell => (cell, .spliced index)

/-- Overwrite a cell in some manner. -/
def overwrite (manner : Manner) (written source : Cell) : Action Unit :=
  fun machine =>
    .done ()
      { machine with
        heap := machine.heap.write written (manner.value machine.heap written source) }

section Assigning

variable {evaluate : Evaluator} {operands : List Node} {target : Target} {machine : Machine}

/-- What is overwritten is known before the assigned value is evaluated. -/
theorem assignTo_of_written
    {cell : Cell}
    {manner : Manner}
    (known : target.written? machine.frames = some (cell, manner)) :
    assignTo evaluate operands target machine =
      (operand evaluate operands 1 >>= overwrite manner cell) machine := by
  cases target with
  | slot slot =>
      cases known
      rfl
  | name name =>
      rw [Target.written?, Option.map_eq_some_iff] at known
      obtain ⟨found, bound, same⟩ := known
      cases same
      exact Action.bind_of_done (lookupDeclared_of_bound bound)
  | position name position =>
      rw [Target.written?, Option.map_eq_some_iff] at known
      obtain ⟨found, bound, same⟩ := known
      cases same
      exact Action.bind_of_done (lookupDeclared_of_bound bound)

/-- A target without a cell to write to is a fault, and nothing is evaluated for it. -/
theorem assignTo_of_not_written
    (unknown : target.written? machine.frames = none) :
    ∃ fault, assignTo evaluate operands target machine = .left (.failing fault) machine := by
  cases target with
  | slot slot => cases unknown
  | name name =>
      rw [Target.written?, Option.map_eq_none_iff] at unknown
      exact ⟨_, Action.bind_of_left (lookupDeclared_of_unbound unknown)⟩
  | position name position =>
      rw [Target.written?, Option.map_eq_none_iff] at unknown
      exact ⟨_, Action.bind_of_left (lookupDeclared_of_unbound unknown)⟩

end Assigning

section Resolving

variable {evaluate : Evaluator} {node ownerNode indexNode : Node} {target : Target}
variable {machine after : Machine} {exit : Exit}

theorem indexParts?_form
    (ownerNode indexNode : Node) :
    indexParts? (.form "index" [ownerNode, indexNode]) = some (ownerNode, indexNode) := rfl

/-- An index form resolves to a target on the machine that its owner and its index leave. -/
theorem resolveTarget_index_eq_done_iff :
    resolveTarget evaluate (.form "index" [ownerNode, indexNode]) machine = .done target after ↔
      ∃ owner between index,
        Action.catchReturn (evaluate ownerNode) machine = .done owner between ∧
        Action.catchReturn (evaluate indexNode) between = .done index after ∧
        indexTarget? after.heap ownerNode owner index = some target := by
  simp only [resolveTarget, indexParts?_form, Action.bind_eq_done_iff, Action.look,
    Ending.done.injEq]
  constructor
  · rintro ⟨owner, between, ownerEnds, index, known, indexEnds, _, _, ⟨rfl, rfl⟩, resolved⟩
    cases found : indexTarget? known.heap ownerNode owner index with
    | none =>
        rw [found] at resolved
        cases resolved
    | some other =>
        rw [found] at resolved
        cases resolved
        exact ⟨owner, between, index, ownerEnds, indexEnds, found⟩
  · rintro ⟨owner, between, index, ownerEnds, indexEnds, found⟩
    exact ⟨owner, between, ownerEnds, index, after, indexEnds, _, _, ⟨rfl, rfl⟩, by rw [found]; rfl⟩

/-- Where an index form resolves to no target, only its owner and its index are evaluated. -/
theorem leads_of_resolveTarget_index_left
    (left : resolveTarget evaluate (.form "index" [ownerNode, indexNode]) machine =
      .left exit after) :
    ∃ nodes, nodes <+: [ownerNode, indexNode] ∧ Leads evaluate nodes machine after := by
  simp only [resolveTarget, indexParts?_form] at left
  rcases Action.bind_eq_left_iff.mp left with inOwner | ⟨owner, between, ownerEnds, left⟩
  · exact ⟨[ownerNode], ⟨[indexNode], rfl⟩, .catchReturn (by rw [inOwner]; rfl)⟩
  · have ownerLeads : Leads evaluate [ownerNode] machine between :=
      .catchReturn (by rw [ownerEnds]; rfl)
    refine ⟨[ownerNode, indexNode], List.prefix_refl _, ownerLeads.append (.catchReturn ?_)⟩
    rcases Action.bind_eq_left_iff.mp left with inIndex | ⟨index, known, indexEnds, left⟩
    · rw [inIndex]
      rfl
    · rw [indexEnds]
      obtain inLook | ⟨found, looked, ended, left⟩ := Action.bind_eq_left_iff.mp left
      · cases inLook
      · cases ended
        dsimp only at left
        cases found : indexTarget? known.heap ownerNode owner index with
        | none =>
            rw [found] at left
            cases left
            rfl
        | some other =>
            rw [found] at left
            cases left

/-- A target that is no index form is a name, or none at all, and evaluates nothing. -/
theorem resolveTarget_of_no_index
    (evaluate : Evaluator)
    (machine : Machine)
    (noIndex : indexParts? node = none) :
    (∃ name,
      node = .leaf (.word name) ∧
      resolveTarget evaluate node machine = .done (.name name) machine) ∨
    ∃ fault, resolveTarget evaluate node machine = .left (.failing fault) machine := by
  simp only [resolveTarget, noIndex, targetName]
  cases isName : node.word? with
  | none => exact .inr ⟨_, rfl⟩
  | some name => exact .inl ⟨name, eq_word_of_word? isName, rfl⟩

/-- Finding a target evaluates its owner and its index, if it has them, and nothing else. -/
theorem leads_of_resolveTarget_done
    (resolved : resolveTarget evaluate node machine = .done target after) :
    Leads evaluate (targetOperands node) machine after := by
  cases parts : indexParts? node with
  | some pair =>
      obtain ⟨ownerNode, indexNode⟩ := pair
      obtain rfl := form_of_indexParts? parts
      obtain ⟨owner, between, index, ownerEnds, indexEnds, -⟩ :=
        resolveTarget_index_eq_done_iff.mp resolved
      have ownerLeads : Leads evaluate [ownerNode] machine between :=
        .catchReturn (by rw [ownerEnds]; rfl)
      exact ownerLeads.append (.catchReturn (by rw [indexEnds]; rfl))
  | none =>
      rw [targetOperands, parts]
      rcases resolveTarget_of_no_index evaluate machine parts with
        ⟨name, -, named⟩ | ⟨fault, failed⟩
      · rw [named] at resolved
        cases resolved
        exact .nil machine
      · rw [failed] at resolved
        cases resolved

/-- A target that is not found has evaluated its owner and its index as far as it has come. -/
theorem leads_of_resolveTarget_left
    (left : resolveTarget evaluate node machine = .left exit after) :
    ∃ nodes, nodes <+: targetOperands node ∧ Leads evaluate nodes machine after := by
  cases parts : indexParts? node with
  | some pair =>
      obtain ⟨ownerNode, indexNode⟩ := pair
      obtain rfl := form_of_indexParts? parts
      exact leads_of_resolveTarget_index_left left
  | none =>
      refine ⟨[], List.nil_prefix, ?_⟩
      rcases resolveTarget_of_no_index evaluate machine parts with
        ⟨name, -, named⟩ | ⟨fault, failed⟩
      · rw [named] at left
        cases left
      · rw [failed] at left
        cases left
        exact .nil machine

variable {limits : Limits} {fuel : Nat} {known : Machine} {cell : Cell} {manner : Manner}

/-- A target that was found and has a cell settles what is written, and how. -/
theorem settles_of_resolveTarget
    (resolved : resolveTarget (CellScript.evaluate limits fuel) node machine = .done target known)
    (isWritten : target.written? known.frames = some (cell, manner)) :
    Settles limits fuel node machine cell manner known := by
  cases parts : indexParts? node with
  | some pair =>
      obtain ⟨ownerNode, indexNode⟩ := pair
      obtain rfl := form_of_indexParts? parts
      obtain ⟨owner, between, index, ownerEnds, indexEnds, found⟩ :=
        resolveTarget_index_eq_done_iff.mp resolved
      rw [indexTarget?] at found
      cases inList : known.heap.slot? owner index with
      | some slot =>
          rw [inList] at found
          cases found
          cases isWritten
          exact .slot ownerEnds indexEnds inList
      | none =>
          rw [inList] at found
          obtain ⟨name, isName, found⟩ := Option.bind_eq_some_iff.mp found
          obtain ⟨position, isPosition, same⟩ := Option.bind_eq_some_iff.mp found
          cases same
          rw [Target.written?, Option.map_eq_some_iff] at isWritten
          obtain ⟨_, bound, same⟩ := isWritten
          cases same
          obtain rfl := eq_word_of_word? isName
          exact .position ownerEnds indexEnds inList isPosition bound
  | none =>
      rcases resolveTarget_of_no_index (CellScript.evaluate limits fuel) machine parts with
        ⟨name, rfl, named⟩ | ⟨fault, failed⟩
      · rw [named] at resolved
        cases resolved
        rw [Target.written?, Option.map_eq_some_iff] at isWritten
        obtain ⟨_, bound, same⟩ := isWritten
        cases same
        exact .name bound
      · rw [failed] at resolved
        cases resolved

theorem exists_target_of_settles
    (settles : Settles limits fuel node machine cell manner known) :
    ∃ target,
      resolveTarget (CellScript.evaluate limits fuel) node machine = .done target known ∧
      target.written? known.frames = some (cell, manner) := by
  cases settles with
  | @name name _ _ bound => exact ⟨.name name, rfl, by rw [Target.written?, bound]; rfl⟩
  | slot ownerEnds indexEnds inList =>
      refine ⟨.slot cell, ?_, rfl⟩
      exact resolveTarget_index_eq_done_iff.mpr
        ⟨_, _, _, ownerEnds, indexEnds, by rw [indexTarget?, inList]⟩
  | @position name _ _ _ _ _ _ _ position ownerEnds indexEnds noSlot isPosition bound =>
      refine ⟨.position name position, ?_, by rw [Target.written?, bound]; rfl⟩
      refine resolveTarget_index_eq_done_iff.mpr ⟨_, _, _, ownerEnds, indexEnds, ?_⟩
      rw [indexTarget?, noSlot]
      dsimp only
      rw [isPosition]
      rfl

end Resolving

/-! ## Assignments as a whole -/

section

variable {limits : Limits} {fuel : Nat} {operands rest : List Node} {target : Node}
variable {machine known final after : Machine} {written source result : Cell} {manner : Manner}

theorem evaluate_set
    (limits : Limits)
    (fuel : Nat)
    (operands : List Node) :
    CellScript.evaluate limits (fuel + 1) (.form "set" operands) =
      assignment (CellScript.evaluate limits fuel) operands := rfl

/-- Once it is settled what is overwritten, the value is evaluated and then written. -/
theorem evaluate_set_of_settles
    (settles : Settles limits fuel target machine written manner known) :
    CellScript.evaluate limits (fuel + 1) (.form "set" (target :: rest)) machine =
      (operand (CellScript.evaluate limits fuel) (target :: rest) 1 >>= fun source => do
        overwrite manner written source
        Action.nothing) known := by
  obtain ⟨place, resolved, isWritten⟩ := exists_target_of_settles settles
  rw [evaluate_set, assignment, List.head?_cons]
  dsimp only
  rw [Action.bind_of_done resolved, Action.bind_apply, assignTo_of_written isWritten,
    ← Action.bind_apply, bind_assoc]

/-- An assignment that comes to its end has settled what it overwrites and evaluated a value. -/
theorem settles_of_evaluate_set
    (ended : CellScript.evaluate limits (fuel + 1) (.form "set" operands) machine =
      .done result after) :
    ∃ target rest written manner known source final,
      operands = target :: rest ∧
      Settles limits fuel target machine written manner known ∧
      operand (CellScript.evaluate limits fuel) operands 1 known = .done source final := by
  rw [evaluate_set] at ended
  cases operands with
  | nil => cases ended
  | cons target rest =>
      rw [assignment, List.head?_cons] at ended
      obtain ⟨place, known, resolved, ended⟩ := Action.bind_eq_done_iff.mp ended
      obtain ⟨_, between, assigned, -⟩ := Action.bind_eq_done_iff.mp ended
      cases isWritten : place.written? known.frames with
      | none =>
          obtain ⟨fault, failed⟩ := assignTo_of_not_written isWritten
          rw [failed] at assigned
          cases assigned
      | some pair =>
          obtain ⟨written, manner⟩ := pair
          rw [assignTo_of_written isWritten] at assigned
          obtain ⟨source, final, valueEnds, -⟩ := Action.bind_eq_done_iff.mp assigned
          exact ⟨target, rest, written, manner, known, source, final, rfl,
            settles_of_resolveTarget resolved isWritten, valueEnds⟩

/-- A value that leaves an assignment early is the only operand evaluated after the target. -/
theorem leads_of_operand_left
    {evaluate : Evaluator}
    {exit : Exit}
    (left : operand evaluate (target :: rest) 1 known = .left exit after) :
    Leads evaluate (rest.take 1) known after := by
  cases rest with
  | nil => cases left
  | cons value others =>
      have inValue : evaluate value known = .left exit after := left
      exact .single (by rw [inValue]; rfl)

/-- Once the target is known, an assignment evaluates no more than the assigned value. -/
theorem leads_of_assignTo_left
    {evaluate : Evaluator}
    {place : Target}
    {exit : Exit}
    (left : assignTo evaluate (target :: rest) place known = .left exit after) :
    ∃ nodes, nodes <+: rest.take 1 ∧ Leads evaluate nodes known after := by
  cases isWritten : place.written? known.frames with
  | none =>
      obtain ⟨fault, failed⟩ := assignTo_of_not_written isWritten
      rw [failed] at left
      cases left
      exact ⟨[], List.nil_prefix, .nil _⟩
  | some pair =>
      obtain ⟨written, manner⟩ := pair
      rw [assignTo_of_written isWritten] at left
      rcases Action.bind_eq_left_iff.mp left with inValue | ⟨_, _, _, inWrite⟩
      · exact ⟨_, List.prefix_refl _, leads_of_operand_left inValue⟩
      · cases inWrite

/-- An assignment that is left early is left on the machine that its operands lead to. -/
theorem leads_of_evaluate_set_left
    {exit : Exit}
    (left : CellScript.evaluate limits (fuel + 1) (.form "set" operands) machine =
      .left exit after) :
    ∃ nodes,
      nodes <+: assignmentOperands operands ∧
      Leads (CellScript.evaluate limits fuel) nodes machine after := by
  rw [evaluate_set] at left
  cases operands with
  | nil =>
      cases left
      exact ⟨[], List.nil_prefix, .nil _⟩
  | cons target rest =>
      rw [assignment, List.head?_cons] at left
      rw [assignmentOperands]
      rcases Action.bind_eq_left_iff.mp left with inTarget | ⟨place, known, resolved, left⟩
      · obtain ⟨nodes, isPrefix, leads⟩ := leads_of_resolveTarget_left inTarget
        exact ⟨nodes, isPrefix.trans (List.prefix_append _ _), leads⟩
      · rcases Action.bind_eq_left_iff.mp left with left | ⟨_, _, _, inNothing⟩
        · obtain ⟨nodes, isPrefix, leads⟩ := leads_of_assignTo_left left
          exact ⟨_, (List.prefix_append_right_inj _).mpr isPrefix,
            (leads_of_resolveTarget_done resolved).append leads⟩
        · cases inNothing

end

/-! ## Assignments on closed machines -/

/-- One machine is another one with some value written to a cell, and cells added. -/
structure Overwrites (before after : Machine) (written : Cell) (value : Value) : Prop where
  frames : after.frames = before.frames
  sink : after.sink = before.sink
  has : before.heap.Has written
  now : after.heap.read written = value
  still : ∀ cell,
    before.heap.Has cell → cell ≠ written → after.heap.read cell = before.heap.read cell

/-- A list that is not overwritten consists of the same slots as before. -/
theorem Overwrites.list
    {before after : Machine}
    {written owner : Cell}
    {value : Value}
    {slots : List Cell}
    (overwrites : Overwrites before after written value)
    (other : owner ≠ written)
    (isList : before.heap.read owner = .list slots) :
    after.heap.read owner = .list slots := by
  have has : before.heap.Has owner := Heap.has_of_read (by rw [isList]; nofun)
  rw [overwrites.still owner has other, isList]

section

variable {limits : Limits} {fuel : Nat} {operands rest : List Node} {target : Node}
variable {machine known final after : Machine} {written source result : Cell} {manner : Manner}

/-- Evaluating a node leaves the machine closed, also if its return signal is caught. -/
theorem closed_of_catchReturn
    {node : Node}
    {cell : Cell}
    (closed : machine.Closed)
    (ended : Action.catchReturn (CellScript.evaluate limits fuel node) machine = .done cell after) :
    after.Closed := by
  have left : (CellScript.evaluate limits fuel node machine).machine? = some after := by
    rw [← Action.machine?_catchReturn, ended]
    rfl
  exact closed.of_evaluate left

/-- What an assignment overwrites is a cell of the heap as soon as it is settled. -/
theorem Settles.closed
    (settles : Settles limits fuel target machine written manner known)
    (closed : machine.Closed) :
    known.Closed ∧ known.heap.Has written := by
  cases settles with
  | name bound => exact ⟨closed, closed.names.of_lookup? bound⟩
  | slot ownerEnds indexEnds inList =>
      have betweenClosed := closed_of_catchReturn closed ownerEnds
      have knownClosed := closed_of_catchReturn betweenClosed indexEnds
      obtain ⟨slots, isList, isSlot⟩ := exists_list_of_slot? inList
      exact ⟨knownClosed, knownClosed.slots _ _ ⟨slots, isList, isSlot⟩⟩
  | position ownerEnds indexEnds noSlot isPosition bound =>
      have betweenClosed := closed_of_catchReturn closed ownerEnds
      have knownClosed := closed_of_catchReturn betweenClosed indexEnds
      exact ⟨knownClosed, knownClosed.names.of_lookup? bound⟩

/-- Writing to a cell of the heap comes to its end and changes no other cell. -/
theorem overwrite_ends
    (manner : Manner)
    (source : Cell)
    (has : final.heap.Has written) :
    ∃ result after,
      (do
        overwrite manner written source
        Action.nothing) final = .done result after ∧
      Overwrites final after written (manner.value final.heap written source) := by
  have old {cell : Cell} (has : final.heap.Has cell) :
      cell.index < (final.heap.write written (manner.value final.heap written source)).size := by
    rwa [Heap.size_write]
  refine ⟨_, _, rfl, ?_⟩
  constructor
  · rfl
  · rfl
  · exact has
  · exact (Heap.read_allocate_of_lt .none (old has)).trans (Heap.read_write_self _ has)
  · intro cell hasCell other
    exact (Heap.read_allocate_of_lt .none (old hasCell)).trans (Heap.read_write_of_ne _ other)

/-- On a closed machine, the cell that was settled on is overwritten once the value is known. -/
theorem Settles.overwrites
    (settles : Settles limits fuel target machine written manner known)
    (closed : machine.Closed)
    (valueEnds : operand (CellScript.evaluate limits fuel) (target :: rest) 1 known =
      .done source final)
    (ended : CellScript.evaluate limits (fuel + 1) (.form "set" (target :: rest)) machine =
      .done result after) :
    Overwrites final after written (manner.value final.heap written source) := by
  obtain ⟨knownClosed, has⟩ := settles.closed closed
  have valueDelivers : (operand (CellScript.evaluate limits fuel) (target :: rest) 1).Delivers
      (custodyOfHeap fun _ => True) :=
    Machine.custodyOfClosed.operand
      (fun _ _ => Machine.custodyOfClosed.evaluation limits fuel trivial) 1
  have hasFinal := knownClosed.has_of_delivers valueDelivers valueEnds has
  obtain ⟨_, _, writes, overwrites⟩ := overwrite_ends manner source hasFinal
  rw [evaluate_set_of_settles settles, Action.bind_of_done valueEnds, writes] at ended
  cases ended
  exact overwrites

/--
An assignment that comes to its end has written a single cell: the one that its target
had settled on before the assigned value was evaluated.  The frames and all other cells
are as they were right after that evaluation, be the owner, the value and the cell
written the same or not.  An assignment that is left early has done nothing but evaluate
its operands in turn, and a value that is left early leaves the assignment with it.
-/
theorem assignment_writes_one_cell
    (limits : Limits)
    (fuel : Nat)
    (operands : List Node)
    {machine : Machine}
    (closed : machine.Closed) :
    (∀ result after,
      CellScript.evaluate limits (fuel + 1) (.form "set" operands) machine =
        .done result after →
      ∃ target rest written manner known source final,
        operands = target :: rest ∧
        Settles limits fuel target machine written manner known ∧
        operand (CellScript.evaluate limits fuel) operands 1 known = .done source final ∧
        Overwrites final after written (manner.value final.heap written source) ∧
        ∀ owner slots,
          owner ≠ written →
          final.heap.read owner = .list slots →
          after.heap.read owner = .list slots) ∧
    (∀ exit after,
      CellScript.evaluate limits (fuel + 1) (.form "set" operands) machine = .left exit after →
      ∃ nodes,
        nodes <+: assignmentOperands operands ∧
        Leads (CellScript.evaluate limits fuel) nodes machine after) ∧
    ∀ target rest written manner known exit final,
      operands = target :: rest →
      Settles limits fuel target machine written manner known →
      operand (CellScript.evaluate limits fuel) operands 1 known = .left exit final →
      CellScript.evaluate limits (fuel + 1) (.form "set" operands) machine = .left exit final := by
  refine ⟨?_, fun exit after left => leads_of_evaluate_set_left left, ?_⟩
  · intro result after ended
    obtain ⟨target, rest, written, manner, known, source, final, rfl, settles, valueEnds⟩ :=
      settles_of_evaluate_set ended
    rw [evaluate_set_of_settles settles, Action.bind_of_done valueEnds] at ended
    -- A cell that the heap lacks could not be written, so the write takes effect only because
    -- the settled cell is one of a closed heap, and is one still behind the assigned value.
    obtain ⟨knownClosed, has⟩ := settles.closed closed
    have valueDelivers : (operand (CellScript.evaluate limits fuel) (target :: rest) 1).Delivers
        (custodyOfHeap fun _ => True) :=
      Machine.custodyOfClosed.operand
        (fun _ _ => Machine.custodyOfClosed.evaluation limits fuel trivial) 1
    have hasFinal := knownClosed.has_of_delivers valueDelivers valueEnds has
    obtain ⟨_, _, writes, overwrites⟩ := overwrite_ends manner source hasFinal
    rw [writes] at ended
    cases ended
    exact ⟨target, rest, written, manner, known, source, final, rfl, settles, valueEnds,
      overwrites, fun _ _ other isList => overwrites.list other isList⟩
  · rintro target rest written manner known exit final rfl settles left
    rw [evaluate_set_of_settles settles]
    exact Action.bind_of_left left

/--
A list that is assigned into its own slot still consists of that slot, which now holds
the list, as the name that is bound to the slot shows.
-/
theorem list_assigned_into_its_own_slot_keeps_its_slots :
    let target := Node.form "index" [.leaf (.word "l"), .leaf (.number 0)]
    let operands := [target, .leaf (.word "l")]
    let limits : Limits := { maxIterations := none }
    let number := Heap.empty.allocate (.integer 7)
    let list := number.2.allocate (.list [number.1])
    let machine : Machine :=
      { Machine.start none with
        heap := list.2
        frames := (FrameStack.global.declare "l" list.1).declare "x" number.1 }
    machine.Closed ∧
      ∃ result after,
        CellScript.evaluate limits 2 (.form "set" operands) machine = .done result after ∧
        after.frames.lookup? "x" = some number.1 ∧
        after.heap.read number.1 = .list [number.1] ∧
        after.heap.read list.1 = .list [number.1] ∧
        ∃ target rest written manner known source final,
          operands = target :: rest ∧
          Settles limits 1 target machine written manner known ∧
          operand (CellScript.evaluate limits 1) operands 1 known = .done source final ∧
          Overwrites final after written (manner.value final.heap written source) ∧
          ∀ owner slots,
            owner ≠ written →
            final.heap.read owner = .list slots →
            after.heap.read owner = .list slots := by
  intro target operands limits number list machine
  have noneInNumber : ∀ slot, (Value.integer 7).HasSlot slot → Heap.empty.Has slot := by
    rintro slot ⟨slots, ⟨⟩, isSlot⟩
  have oneInList : ∀ slot, (Value.list [number.1]).HasSlot slot → number.2.Has slot := by
    rintro slot ⟨slots, ⟨⟩, isSlot⟩
    obtain rfl := List.mem_singleton.mp isSlot
    exact Heap.has_allocate _ _
  have closed : machine.Closed := by
    have made : Machine.Closed { Machine.start none with heap := list.2 } :=
      ((Machine.Closed.start none).allocate noneInNumber).allocate oneInList
    have hasNumber : list.2.Has number.1 := (Heap.has_allocate _ _).allocate _
    exact (made.declare "l" (Heap.has_allocate _ _)).declare "x" hasNumber
  obtain ⟨writes, -, -⟩ := assignment_writes_one_cell limits 1 operands closed
  exact ⟨closed, _, _, rfl, rfl, rfl, rfl, writes _ _ rfl⟩

end

end Evaluation

end CellScript
