import CellScript.Proofs.FrameDiscipline
import CellScript.Proofs.Relocation

namespace CellScript

/-!
# Runs in step

Two runs of one program are in step while they do the same on machines that
correspond to each other.  The second run may find cells of earlier runs, and it
may have more fuel, a greater cap or more room in its sink.  So the first run may
be stopped where the second one goes on, and then it has printed a part of what
the second one prints.
-/

/-! ## Output -/

/-- A sink has taken more, or nothing, since. -/
def Sink.GrowsTo (before after : Sink) : Prop :=
  ∃ more, after.written = before.written ++ more

namespace Sink.GrowsTo

theorem refl
    (sink : Sink) :
    sink.GrowsTo sink :=
  ⟨ByteArray.empty, ByteArray.append_empty.symm⟩

theorem trans
    {first second third : Sink}
    (earlier : first.GrowsTo second)
    (later : second.GrowsTo third) :
    first.GrowsTo third := by
  obtain ⟨more, written⟩ := earlier
  obtain ⟨evenMore, writtenLater⟩ := later
  exact ⟨more ++ evenMore, by rw [writtenLater, written, ByteArray.append_assoc]⟩

/-- Bytes that do not fit are lost, but none that were there before. -/
theorem take
    (sink : Sink)
    (bytes : ByteArray) :
    sink.GrowsTo (sink.take bytes) := by
  unfold Sink.take
  split
  · exact ⟨_, rfl⟩
  · exact ⟨_, rfl⟩

end Sink.GrowsTo

/-- What was printed stays printed. -/
def outputGrows : Contract where
  invariant _ := True
  relates before _ after := before.sink.GrowsTo after.sink

namespace outputGrows

/-- A step that leaves the sink alone keeps what was printed. -/
theorem accepts_of_same_sink
    {before after : Machine}
    (exit : Option Exit)
    (same : after.sink = before.sink) :
    outputGrows.Accepts before exit after where
  invariant := trivial
  relates := by
    change before.sink.GrowsTo after.sink
    rw [same]
    exact .refl _

/-- Only printing changes the sink, and it adds to it. -/
theorem lawful : outputGrows.Lawful fun _ => True where
  stays _ := .refl _
  joins earlier later := earlier.trans later
  fails _ _ := .refl _
  returns _ _ := .refl _
  takes kept := kept
  allocates _ _ := accepts_of_same_sink none rfl
  allocatesFunction _ _ := accepts_of_same_sink none rfl
  assigns _ _ := accepts_of_same_sink none rfl
  splices _ _ := accepts_of_same_sink none rfl
  declares _ := accepts_of_same_sink none rfl
  prints _ _ := Action.printLine_meetsAt ⟨trivial, .take _ _⟩ ⟨trivial, .take _ _⟩
  pushes _ := trivial
  pops _ accepted := ⟨trivial, accepted.relates⟩
  goodMembers _ _ _ _ := trivial
  goodOperands _ _ _ _ := trivial
  goodBody _ _ := trivial

end outputGrows

/-! ## Pairings -/

/-- In what two runs may differ, and how the first may stop before the second. -/
structure Pairing where
  /-- The limits of the first run. -/
  first : Limits
  /-- The limits of the second run. -/
  second : Limits
  /-- The cells that only the second run finds. -/
  earlier : Heap
  /-- What holds between the sinks as long as the runs are in step. -/
  sinks : Sink → Sink → Prop
  /-- The first run may use up its fuel before the second one. -/
  lags : Prop
  /-- The faults by which the first run may stop while the second one goes on. -/
  stops : Fault → Prop
  /-- What holds between the sinks when the first run has stopped. -/
  beyond : Sink → Sink → Prop

/-- Two machines correspond to each other. -/
structure Pairing.Paired (pairing : Pairing) (machine other : Machine) : Prop where
  heap : other.heap = machine.heap.above pairing.earlier
  frames : other.frames = relocate pairing.earlier.size machine.frames
  sinks : pairing.sinks machine.sink other.sink

/-- When neither run finds cells that the other one lacks, they have the same cells. -/
theorem Pairing.paired_iff_of_plain
    {pairing : Pairing}
    {machine other : Machine}
    (plain : pairing.earlier = Heap.empty) :
    pairing.Paired machine other ↔
      other.heap = machine.heap ∧ other.frames = machine.frames ∧
        pairing.sinks machine.sink other.sink := by
  have sameHeap : machine.heap.above pairing.earlier = machine.heap := by
    rw [plain, Heap.above_empty]
  have sameFrames : relocate pairing.earlier.size machine.frames = machine.frames := by
    rw [plain]
    exact relocate_zero _
  constructor
  · rintro ⟨heap, frames, sinks⟩
    exact ⟨heap.trans sameHeap, frames.trans sameFrames, sinks⟩
  · rintro ⟨heap, frames, sinks⟩
    exact ⟨heap.trans sameHeap.symm, frames.trans sameFrames.symm, sinks⟩

/-- A pairing that evaluation can keep to. -/
structure Pairing.Lawful (pairing : Pairing) : Prop where
  /-- The second run has no tighter cap than the first. -/
  caps : ∀ bound ∈ pairing.second.maxIterations,
    ∃ limit ∈ pairing.first.maxIterations, limit ≤ bound
  /-- A cap that is not the same for both may stop the first run. -/
  cuts : ∀ {limit sink other},
    pairing.first.maxIterations = some limit →
    pairing.second.maxIterations ≠ some limit →
    pairing.sinks sink other →
    pairing.stops (.tooManyIterations limit) ∧ pairing.beyond sink other
  /-- Both sinks take a line, or both refuse it, or the refusal stops the first run. -/
  prints : ∀ {sink other} bytes,
    pairing.sinks sink other →
    (sink.fits bytes.size = other.fits bytes.size ∧
        pairing.sinks (sink.take bytes) (other.take bytes)) ∨
      (sink.fits bytes.size = false ∧
        pairing.stops .sinkFull ∧
        pairing.beyond (sink.take bytes) (other.take bytes))
  /-- The second run may go on printing when the first one has stopped. -/
  goesOn : ∀ {sink between other},
    pairing.beyond sink between → between.GrowsTo other → pairing.beyond sink other
  /-- Only runs that find the same cells may be stopped at different times. -/
  plain : ∀ {fault}, pairing.stops fault → pairing.earlier = Heap.empty

/-- The endings of two runs that were in step. -/
inductive Ending.InStep {α : Type} [Relocatable α] (pairing : Pairing) :
    Ending α → Ending α → Prop where
  /-- Both come to the end. -/
  | done
      {value : α}
      {machine other : Machine}
      (paired : pairing.Paired machine other) :
      InStep pairing (.done value machine)
        (.done (relocate pairing.earlier.size value) other)
  /-- Both are left early, and by the same exit. -/
  | left
      {exit : Exit}
      {machine other : Machine}
      (paired : pairing.Paired machine other) :
      InStep pairing (.left exit machine)
        (.left (relocate pairing.earlier.size exit) other)
  /-- The fuel of the first run is used up. -/
  | unfinished
      {second : Ending α}
      (both : pairing.lags ∨ second = .unfinished) :
      InStep pairing .unfinished second
  /-- The first run has stopped, the second one has gone on. -/
  | stopped
      {fault : Fault}
      {machine : Machine}
      {second : Ending α}
      (stops : pairing.stops fault)
      (goneOn : ∀ other ∈ second.machine?, pairing.beyond machine.sink other.sink) :
      InStep pairing (.left (.failing fault) machine) second

/-- Two computations stay in step on all machines that correspond to each other. -/
structure Action.InStep
    {α : Type}
    [Relocatable α]
    (pairing : Pairing)
    (first second : Action α) : Prop where
  runs : ∀ {machine other},
    pairing.Paired machine other → (first machine).InStep pairing (second other)
  /-- What the second one prints once the first one has stopped comes on top. -/
  grows : ∀ {fault}, pairing.stops fault → second.Meets outputGrows

/-! ## Putting computations together -/

namespace Pairing.Lawful

variable {pairing : Pairing} {α β : Type} [Relocatable α] [Relocatable β]

/-- Where the first run may stop alone, both find the same cells and nothing is moved. -/
theorem relocate_of_stops
    (lawful : pairing.Lawful)
    {fault : Fault}
    (stops : pairing.stops fault)
    (value : α) :
    relocate pairing.earlier.size value = value := by
  rw [lawful.plain stops]
  exact relocate_zero value

/-- Ending at once with corresponding values keeps in step. -/
theorem pure
    (value : α) :
    Action.InStep pairing (Pure.pure value)
      (Pure.pure (relocate pairing.earlier.size value)) where
  runs paired := .done paired
  grows _ := outputGrows.lawful.pure _

/-- Computations in step can be continued by computations that are in step for each value. -/
theorem bind
    (lawful : pairing.Lawful)
    {first second : Action α}
    {next other : α → Action β}
    (start : first.InStep pairing second)
    (rest : ∀ value,
      (next value).InStep pairing (other (relocate pairing.earlier.size value))) :
    Action.InStep pairing (first >>= next) (second >>= other) where
  grows stops := outputGrows.lawful.bind (start.grows stops) fun value => by
    have grows := (rest value).grows stops
    rwa [lawful.relocate_of_stops stops] at grows
  runs := by
    intro machine otherMachine paired
    have started := start.runs paired
    rw [Action.bind_apply, Action.bind_apply]
    generalize first machine = firstEnding at started
    generalize second otherMachine = secondEnding at started
    cases started with
    | done paired => exact (rest _).runs paired
    | left paired => exact .left paired
    | unfinished both =>
        refine .unfinished (both.imp_right fun unfinished => ?_)
        rw [unfinished]
    | stopped stops goneOn =>
        refine .stopped stops ?_
        cases secondEnding with
        | done value between =>
            have grows := (rest value).grows stops
            rw [lawful.relocate_of_stops stops] at grows
            intro final ended
            obtain ⟨_, accepted⟩ := (grows between trivial).of_machine? ended
            exact lawful.goesOn (goneOn between rfl) accepted.relates
        | left exit between => exact goneOn
        | unfinished => exact goneOn

theorem fail
    (fault : Fault) :
    Action.InStep pairing (Action.fail fault : Action α) (Action.fail fault) where
  runs paired := .left paired
  grows _ := fun _ _ => outputGrows.accepts_of_same_sink _ rfl

/-- A fault that stops the first run lets the second one do what it likes. -/
theorem stop
    (lawful : pairing.Lawful)
    {fault : Fault}
    {second : Action α}
    (stops : ∀ {sink other},
      pairing.sinks sink other → pairing.stops fault ∧ pairing.beyond sink other)
    (grows : ∀ {fault}, pairing.stops fault → second.Meets outputGrows) :
    Action.InStep pairing (Action.fail fault) second where
  runs paired := by
    obtain ⟨isStop, beyond⟩ := stops paired.sinks
    refine .stopped isStop fun other ended => ?_
    obtain ⟨_, accepted⟩ := (grows isStop _ trivial).of_machine? ended
    exact lawful.goesOn beyond accepted.relates
  grows := grows

/-- Views of machines that correspond to each other are the same but for relocation. -/
theorem look
    {view other : Machine → α}
    (same : ∀ {machine otherMachine},
      pairing.Paired machine otherMachine →
      other otherMachine = relocate pairing.earlier.size (view machine)) :
    Action.InStep pairing (Action.look view) (Action.look other) where
  runs paired := by
    rw [Action.look, Action.look, same paired]
    exact .done paired
  grows _ := fun _ _ => outputGrows.accepts_of_same_sink _ rfl

/-- A change of the machine that prints nothing and corresponds to the other one. -/
theorem change
    {value : α}
    {first second : Machine → Machine}
    (heaps : ∀ {machine other},
      pairing.Paired machine other →
      (second other).heap = (first machine).heap.above pairing.earlier)
    (frames : ∀ {machine other},
      pairing.Paired machine other →
      (second other).frames = relocate pairing.earlier.size (first machine).frames)
    (firstSink : ∀ machine, (first machine).sink = machine.sink)
    (secondSink : ∀ machine, (second machine).sink = machine.sink) :
    Action.InStep pairing
      (fun machine => .done value (first machine))
      (fun machine => .done (relocate pairing.earlier.size value) (second machine)) where
  runs paired := .done
    { heap := heaps paired
      frames := frames paired
      sinks := by
        rw [firstSink, secondSink]
        exact paired.sinks }
  grows _ := fun machine _ => outputGrows.accepts_of_same_sink _ (secondSink machine)

/-- Overwriting corresponding cells with corresponding values keeps the heaps related. -/
theorem write
    (cell : Cell)
    (value : Value) :
    Action.InStep pairing (Action.write cell value)
      (Action.write (relocate pairing.earlier.size cell)
        (relocate pairing.earlier.size value)) := by
  refine change ?_ (fun paired => paired.frames) (fun _ => rfl) (fun _ => rfl)
  intro machine other paired
  rw [paired.heap, Heap.write_above]

/-- Copying between corresponding cells keeps the heaps related. -/
theorem assign
    (target source : Cell) :
    Action.InStep pairing (Action.assign target source)
      (Action.assign (relocate pairing.earlier.size target)
        (relocate pairing.earlier.size source)) := by
  refine change ?_ (fun paired => paired.frames) (fun _ => rfl) (fun _ => rfl)
  intro machine other paired
  rw [paired.heap, Heap.assign_above]

/-- Binding a name to corresponding cells keeps the frames related. -/
theorem declare
    (name : String)
    (cell : Cell) :
    Action.InStep pairing (Action.declare name cell)
      (Action.declare name (relocate pairing.earlier.size cell)) := by
  refine change (fun paired => paired.heap) ?_ (fun _ => rfl) (fun _ => rfl)
  intro machine other paired
  simp only [Machine.withFrames, paired.frames, FrameStack.declare_relocate]

/-- New cells correspond, as both are the next ones of their heaps. -/
theorem allocate
    (value : Value) :
    Action.InStep pairing (Action.allocate value)
      (Action.allocate (relocate pairing.earlier.size value)) where
  runs {machine other} paired := by
    simp only [Action.allocate, paired.heap, Heap.allocate_above]
    exact .done ⟨rfl, paired.frames, paired.sinks⟩
  grows _ := fun _ _ => outputGrows.accepts_of_same_sink _ rfl

theorem nothing :
    Action.InStep pairing Action.nothing Action.nothing :=
  allocate .none

theorem giveBack
    (cell : Cell) :
    Action.InStep pairing (Action.giveBack cell : Action α)
      (Action.giveBack (relocate pairing.earlier.size cell)) where
  runs paired := .left paired
  grows _ := fun _ _ => outputGrows.accepts_of_same_sink _ rfl

theorem contents
    (cell : Cell) :
    Action.InStep pairing (Action.contents cell)
      (Action.contents (relocate pairing.earlier.size cell)) :=
  look fun paired => by rw [paired.heap, Heap.read_above]

/-- A name means corresponding cells. -/
theorem lookup?
    (name : String) :
    Action.InStep pairing (Action.lookup? name) (Action.lookup? name) :=
  look fun paired => by rw [paired.frames, FrameStack.lookup?_relocate]

/-- Binding names one after the other keeps the frames related. -/
theorem declareAll
    (lawful : pairing.Lawful)
    (bindings : List (String × Cell)) :
    Action.InStep pairing (Action.declareAll bindings)
      (Action.declareAll (relocate pairing.earlier.size bindings)) := by
  induction bindings with
  | nil => exact pure ()
  | cons binding rest inductionHypothesis =>
      exact lawful.bind (declare binding.1 binding.2) fun _ => inductionHypothesis

/-- A line goes to both sinks, or it makes the first run stop. -/
theorem printLine
    (lawful : pairing.Lawful)
    (line : String) :
    Action.InStep pairing (Action.printLine line) (Action.printLine line) where
  runs {machine other} paired := by
    simp only [Action.printLine]
    rcases lawful.prints (Sink.lineBytes line) paired.sinks with
      ⟨same, sinks⟩ | ⟨refused, stops, beyond⟩
    · rw [← same]
      split
      · exact .done ⟨paired.heap, paired.frames, sinks⟩
      · exact .left ⟨paired.heap, paired.frames, sinks⟩
    · rw [if_neg (by simp [refused])]
      refine .stopped stops ?_
      split
      · rintro _ ⟨⟩
        exact beyond
      · rintro _ ⟨⟩
        exact beyond
  grows _ := fun _ _ => outputGrows.lawful.prints line trivial

/-- A frame is pushed and popped in both runs, however the inner computations end. -/
theorem inFrame
    {first second : Action α}
    (inner : first.InStep pairing second) :
    Action.InStep pairing (Action.inFrame first) (Action.inFrame second) where
  runs {machine other} paired := by
    have pushed :
        pairing.Paired (machine.withFrames FrameStack.push)
          (other.withFrames FrameStack.push) :=
      ⟨paired.heap, congrArg FrameStack.push paired.frames, paired.sinks⟩
    have popped {machine other : Machine} (paired : pairing.Paired machine other) :
        pairing.Paired (machine.withFrames FrameStack.pop)
          (other.withFrames FrameStack.pop) := by
      refine ⟨paired.heap, ?_, paired.sinks⟩
      simp only [Machine.withFrames, paired.frames, FrameStack.pop_relocate]
    have ended := inner.runs pushed
    unfold Action.inFrame
    generalize first (machine.withFrames FrameStack.push) = firstEnding at ended
    generalize second (other.withFrames FrameStack.push) = secondEnding at ended
    cases ended with
    | done paired => exact .done (popped paired)
    | left paired => exact .left (popped paired)
    | unfinished both =>
        refine .unfinished (both.imp_right fun unfinished => ?_)
        rw [unfinished, Ending.onMachine]
    | stopped stops goneOn =>
        refine .stopped stops fun other ended => ?_
        rw [Ending.machine?_onMachine] at ended
        obtain ⟨final, isFinal, rfl⟩ := Option.map_eq_some_iff.mp ended
        exact goneOn final isFinal
  grows stops := outputGrows.lawful.inFrame (inner.grows stops)

/-- A return signal becomes a value in both runs; faults stay faults. -/
theorem catchReturn
    {first second : Action Cell}
    (inner : first.InStep pairing second) :
    Action.InStep pairing (Action.catchReturn first) (Action.catchReturn second) where
  runs {machine other} paired := by
    have ended := inner.runs paired
    unfold Action.catchReturn
    generalize first machine = firstEnding at ended
    generalize second other = secondEnding at ended
    cases ended with
    | done paired => exact .done paired
    | @left exit _ _ paired =>
        cases exit with
        | returning cell => exact .done paired
        | failing fault => exact .left paired
    | unfinished both =>
        refine .unfinished (both.imp_right fun unfinished => ?_)
        rw [unfinished]
    | stopped stops goneOn =>
        refine .stopped stops ?_
        cases secondEnding with
        | left exit final => cases exit <;> exact goneOn
        | done | unfinished => exact goneOn
  grows stops := outputGrows.lawful.catchReturn (inner.grows stops)

end Pairing.Lawful

end CellScript
