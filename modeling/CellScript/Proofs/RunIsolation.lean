import CellScript.Proofs.Fuel
import CellScript.Proofs.Shapes

namespace CellScript

/-!
# One run after another

A machine on which other programs have run holds the cells that they made, and
their output.  A program that is run on it is in step with a run on a new machine,
where the same cells come without those before them.  Cells have no other use than
to be told apart, so nothing that can be seen of the two runs is different.
-/

/-- A machine on which nothing but programs and scripts was run, in any way and to any end. -/
inductive Machine.Used : Machine → Prop where
  | start :
      Used (Machine.start none)
  | execute
      {limits : Limits}
      {fuel : Nat}
      {members : List Node}
      {machine after : Machine}
      (used : Used machine)
      (ended : (Program.execute limits fuel members machine).machine? = some after) :
      Used after
  | run
      {limits : Limits}
      {fuel : Nat}
      {source : String}
      {machine after : Machine}
      (used : Used machine)
      (ended : (Program.run limits fuel source machine).machine? = some after) :
      Used after

/-! ## What can be seen of a run -/

/-- Nothing that can be seen of two values tells them apart, each with its own heap. -/
structure Value.LooksLike (heap otherHeap : Heap) (value other : Value) : Prop where
  typeName : other.typeName = value.typeName
  snapshot : other.snapshot otherHeap = value.snapshot heap
  display : other.display otherHeap = value.display heap
  rendering : other.render otherHeap = value.render heap
  joined : other.join otherHeap = value.join heap
  truthiness : other.isTruthy = value.isTruthy
  /-- The same slots are one and the same cell, in the lists and in those inside them. -/
  shape : ∀ slots, value = .list slots →
    ∃ others, other = .list others ∧ otherHeap.shape others = heap.shape slots
  function : ∀ parameters body, value = .function parameters body →
    other = .function parameters body

/-- A value looks the same on top of an earlier heap. -/
theorem Value.looksLike_above
    (heap earlier : Heap)
    (value : Value) :
    value.LooksLike heap (heap.above earlier) (relocate earlier.size value) where
  typeName := typeName_relocate _ _
  snapshot := snapshot_above _ _ _
  display := display_above _ _ _
  rendering := render_above _ _ _
  joined := join_above _ _ _
  truthiness := isTruthy_relocate _ _
  shape := by
    rintro slots rfl
    exact ⟨relocate earlier.size slots, rfl, heap.shape_above earlier slots⟩
  function := by
    rintro parameters body rfl
    rfl

/--
Nothing that can be seen of two endings tells them apart, when the sink of the
second machine held some output before.
-/
inductive Ending.LooksLike (printed : ByteArray) : Ending Value → Ending Value → Prop where
  | done
      {value other : Value}
      {machine otherMachine : Machine}
      (values : value.LooksLike machine.heap otherMachine.heap other)
      (output : otherMachine.sink.written = printed ++ machine.sink.written) :
      LooksLike printed (.done value machine) (.done other otherMachine)
  | fault
      {fault : Fault}
      {machine otherMachine : Machine}
      (output : otherMachine.sink.written = printed ++ machine.sink.written) :
      LooksLike printed (.left (.failing fault) machine) (.left (.failing fault) otherMachine)
  | unfinished :
      LooksLike printed .unfinished .unfinished

theorem Ending.LooksLike.unfinished_iff
    {printed : ByteArray}
    {ending other : Ending Value}
    (alike : ending.LooksLike printed other) :
    other = .unfinished ↔ ending = .unfinished := by
  cases alike <;> simp

/-! ## Runs with and without earlier ones -/

/-- A run on a new machine and one on a machine that others have run on. -/
def Pairing.later (limits : Limits) (machine : Machine) : Pairing where
  first := limits
  second := limits
  earlier := machine.heap
  sinks sink other :=
    sink.room = none ∧ other = { sink with written := machine.sink.written ++ sink.written }
  lags := False
  stops _ := False
  beyond _ _ := True

namespace Pairing.later

variable {limits : Limits} {machine : Machine}

/-- Neither run may stop before the other, and both print the same. -/
theorem lawful :
    (Pairing.later limits machine).Lawful where
  caps := Limits.AtMost.refl limits
  cuts isLimit notLimit _ := absurd isLimit notLimit
  prints := by
    rintro ⟨written, room⟩ _ bytes ⟨unlimited, rfl⟩
    cases unlimited
    exact .inl ⟨rfl, rfl, congrArg (Sink.mk · none) ByteArray.append_assoc⟩
  goesOn _ _ := trivial
  plain stops := stops.elim

/-- A machine without bindings corresponds to a new one. -/
theorem paired
    (global : machine.frames = FrameStack.global)
    (unlimited : machine.sink.room = none) :
    (Pairing.later limits machine).Paired (Machine.start none) machine where
  heap := (machine.heap.empty_above).symm
  frames := global
  sinks := by
    refine ⟨rfl, ?_⟩
    obtain ⟨_, _, written, room⟩ := machine
    cases unlimited
    exact congrArg (Sink.mk · none) ByteArray.append_empty.symm

variable {first second : Machine}

theorem unlimited_of_paired
    (paired : (Pairing.later limits machine).Paired first second) :
    second.sink.room = none := by
  obtain ⟨unlimited, sink⟩ := paired.sinks
  rw [sink]
  exact unlimited

/-- The later run has written what the first one has, behind what was there before it. -/
theorem written_of_paired
    (paired : (Pairing.later limits machine).Paired first second) :
    second.sink.written = machine.sink.written ++ first.sink.written := by
  rw [paired.sinks.2]

end Pairing.later

namespace Program

/-- A script that cannot be read fails at once; any other one runs its program. -/
theorem run_eq
    (limits : Limits)
    (fuel : Nat)
    (source : String) :
    (∃ fault, run limits fuel source = Action.fail fault) ∨
      ∃ members, run limits fuel source = execute limits fuel members := by
  unfold run
  cases Node.ofSource source with
  | error fault => exact .inl ⟨fault, rfl⟩
  | ok members => exact .inr ⟨members, rfl⟩

variable {machine : Machine}

/-- A run on a new machine and one on a used machine keep in step. -/
theorem inStep_later
    (limits : Limits)
    (global : machine.frames = FrameStack.global)
    (unlimited : machine.sink.room = none)
    (fuel : Nat)
    (members : List Node) :
    (execute limits fuel members (Machine.start none)).InStep (Pairing.later limits machine)
      (execute limits fuel members machine) :=
  (Pairing.later.lawful.execute (Nat.le_refl fuel) (.inr rfl) members).runs
    (Pairing.later.paired global unlimited)

/-- A program whose sink has no limit leaves one without limit behind. -/
theorem unlimited_of_execute
    {limits : Limits}
    {fuel : Nat}
    {members : List Node}
    {after : Machine}
    (global : machine.frames = FrameStack.global)
    (unlimited : machine.sink.room = none)
    (ended : (execute limits fuel members machine).machine? = some after) :
    after.sink.room = none := by
  -- The run on a new machine says so: sinks that correspond to each other have no limit.
  have inStep := inStep_later limits global unlimited fuel members
  generalize execute limits fuel members (Machine.start none) = first at inStep
  generalize execute limits fuel members machine = second at inStep ended
  cases inStep with
  | done paired | left paired =>
      cases ended
      exact Pairing.later.unlimited_of_paired paired
  | unfinished both =>
      rcases both with ⟨⟨⟩⟩ | unfinished
      rw [unfinished] at ended
      cases ended
  | stopped stops => exact stops.elim

/-- A run on a used machine looks like a run on a new one. -/
theorem looksLike_of_execute
    (limits : Limits)
    (global : machine.frames = FrameStack.global)
    (unlimited : machine.sink.room = none)
    (fuel : Nat)
    (members : List Node) :
    (execute limits fuel members (Machine.start none)).LooksLike machine.sink.written
      (execute limits fuel members machine) := by
  have inStep := inStep_later limits global unlimited fuel members
  cases ended : execute limits fuel members (Machine.start none) with
  | done value after =>
      rw [ended] at inStep
      generalize execute limits fuel members machine = second at inStep
      cases inStep with
      | done paired =>
          refine .done ?_ (Pairing.later.written_of_paired paired)
          rw [paired.heap]
          exact Value.looksLike_above _ _ _
  | left exit after =>
      obtain ⟨fault, rfl⟩ := fault_of_execute ended
      rw [ended] at inStep
      generalize execute limits fuel members machine = second at inStep
      cases inStep with
      | left paired => exact .fault (Pairing.later.written_of_paired paired)
      | stopped stops => exact stops.elim
  | unfinished =>
      rw [ended] at inStep
      generalize execute limits fuel members machine = second at inStep
      cases inStep with
      | unfinished both =>
          rcases both with ⟨⟨⟩⟩ | unfinished
          rw [unfinished]
          exact .unfinished

end Program

/-- Nothing but cells and output is left on a machine by what was run on it. -/
theorem Machine.Used.global_and_unlimited
    {machine : Machine}
    (used : machine.Used) :
    machine.frames = FrameStack.global ∧ machine.sink.room = none := by
  have afterProgram {limits : Limits} {fuel : Nat} {members : List Node}
      {before after : Machine}
      (held : before.frames = FrameStack.global ∧ before.sink.room = none)
      (ended : (Program.execute limits fuel members before).machine? = some after) :
      after.frames = FrameStack.global ∧ after.sink.room = none :=
    ⟨(frames_of_execute ended).trans held.1,
      Program.unlimited_of_execute held.1 held.2 ended⟩
  induction used with
  | start => exact ⟨rfl, rfl⟩
  | execute used ended inductionHypothesis => exact afterProgram inductionHypothesis ended
  | run used ended inductionHypothesis =>
      rcases Program.run_eq _ _ _ with ⟨fault, failing⟩ | ⟨members, running⟩
      · rw [failing] at ended
        cases ended
        exact inductionHypothesis
      · rw [running] at ended
        exact afterProgram inductionHypothesis ended

namespace Program

/--
What was run on a machine before has no effect on what is run on it now.  A program
or a script looks like it does on a new machine: it fails with the same fault or
comes to a value that cannot be told apart, it prints the same on top of what was
printed before, and it comes to an end if and only if it does on a new machine.
-/
theorem nothing_leaks_between_runs
    {machine : Machine}
    (used : machine.Used)
    (limits : Limits) :
    (∀ fuel members,
      (execute limits fuel members (Machine.start none)).LooksLike machine.sink.written
        (execute limits fuel members machine)) ∧
    (∀ fuel source,
      (run limits fuel source (Machine.start none)).LooksLike machine.sink.written
        (run limits fuel source machine)) ∧
    ∀ members,
      (∃ ending, EndsWith limits members machine ending) ↔
        ∃ ending, EndsWith limits members (Machine.start none) ending := by
  obtain ⟨global, unlimited⟩ := used.global_and_unlimited
  have alike := looksLike_of_execute limits global unlimited
  refine ⟨alike, ?_, ?_⟩
  · intro fuel source
    rcases run_eq limits fuel source with ⟨fault, failing⟩ | ⟨members, running⟩
    · rw [failing]
      exact .fault ByteArray.append_empty.symm
    · rw [running]
      exact alike fuel members
  · intro members
    constructor
    · rintro ⟨_, finished, fuel, rfl⟩
      exact ⟨_, fun unfinished => finished ((alike fuel members).unfinished_iff.mpr unfinished),
        fuel, rfl⟩
    · rintro ⟨_, finished, fuel, rfl⟩
      exact ⟨_, fun unfinished => finished ((alike fuel members).unfinished_iff.mp unfinished),
        fuel, rfl⟩

/-- What a failed run has declared is not there in the next one, but what it has printed stays. -/
theorem nothing_leaks_from_failed_run :
    let failing :=
      [Node.form "let" [.leaf (.word "x"), .leaf (.number 7)],
        Node.form "print" [.leaf (.word "x")],
        Node.form "missing" []]
    let later := [Node.form "print" [.leaf (.word "x")]]
    ∃ used final,
      execute .unlimited 9 failing (Machine.start none) =
        .left (.failing (.unrecognizedExpression "missing")) used ∧
      used.Used ∧
      (execute .unlimited 9 later (Machine.start none)).LooksLike used.sink.written
        (execute .unlimited 9 later used) ∧
      execute .unlimited 9 later used = .done .none final ∧
      final.sink.written = "7\nnone\n".toUTF8 := by
  intro failing later
  have ended : execute .unlimited 9 failing (Machine.start none) =
      .left (.failing (.unrecognizedExpression "missing")) _ := rfl
  have used := Machine.Used.execute .start (congrArg Ending.machine? ended)
  exact ⟨_, _, ended, used, (nothing_leaks_between_runs used .unlimited).1 9 later, rfl, rfl⟩

end Program

end CellScript
