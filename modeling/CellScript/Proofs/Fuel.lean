import CellScript.Proofs.EvaluationInStep
import CellScript.Proofs.ReturnSignals

namespace CellScript

/-!
# Fuel and caps

A run with less fuel, or with a tighter cap, is in step with a run on the same
machine that has more.  Either it ends in the same way, or its fuel is used up, or
its cap has stopped it.  So with the same cap more fuel never changes how a run has
ended, and one can speak of how a program ends without naming any fuel.
-/

namespace Limits

/-- The cap of one run is no greater than that of another; no cap counts as the greatest. -/
def AtMost (limits looser : Limits) : Prop :=
  ∀ bound ∈ looser.maxIterations, ∃ limit ∈ limits.maxIterations, limit ≤ bound

theorem AtMost.refl
    (limits : Limits) :
    limits.AtMost limits :=
  fun bound isBound => ⟨bound, isBound, Nat.le_refl bound⟩

end Limits

/-- Two runs on the same machine, the first with a tighter cap or less fuel. -/
def Pairing.looser (limits looser : Limits) : Pairing where
  first := limits
  second := looser
  earlier := Heap.empty
  sinks sink other := other = sink
  lags := True
  stops fault :=
    ∃ limit,
      limits.maxIterations = some limit ∧
        looser.maxIterations ≠ some limit ∧
        fault = .tooManyIterations limit
  beyond := Sink.GrowsTo

namespace Pairing.looser

/-- A run with a tighter cap or less fuel may stop first, on the same cells and the same sink. -/
theorem lawful
    {limits looser : Limits}
    (atMost : limits.AtMost looser) :
    (Pairing.looser limits looser).Lawful where
  caps := atMost
  cuts := by
    rintro limit sink other isLimit notBound rfl
    exact ⟨⟨limit, isLimit, notBound, rfl⟩, .refl _⟩
  prints := by
    rintro sink other bytes rfl
    exact .inl ⟨rfl, rfl⟩
  goesOn earlier later := earlier.trans later
  plain _ := rfl

/-- The machines of the two runs are one and the same. -/
theorem paired_iff
    {limits looser : Limits}
    {machine other : Machine} :
    (Pairing.looser limits looser).Paired machine other ↔ other = machine := by
  rw [Pairing.paired_iff_of_plain rfl]
  constructor
  · rintro ⟨heap, frames, sink⟩
    cases other
    cases heap
    cases frames
    cases sink
    rfl
  · rintro rfl
    exact ⟨rfl, rfl, rfl⟩

end Pairing.looser

/-- A run with a looser cap and no less fuel ends likewise, or the other run was stopped. -/
theorem Ending.InStep.of_looser
    {α : Type}
    [Relocatable α]
    {limits looser : Limits}
    {ending second : Ending α}
    (inStep : ending.InStep (Pairing.looser limits looser) second) :
    second = ending ∨ ending = .unfinished ∨
      ∃ limit machine,
        limits.maxIterations = some limit ∧
          ending = .left (.failing (.tooManyIterations limit)) machine ∧
          looser.maxIterations ≠ some limit ∧
          ∀ other ∈ second.machine?, machine.sink.GrowsTo other.sink := by
  cases inStep with
  | done paired =>
      rw [Pairing.looser.paired_iff] at paired
      rw [paired]
      exact .inl (congrArg (Ending.done · _) (relocate_zero _))
  | left paired =>
      rw [Pairing.looser.paired_iff] at paired
      rw [paired]
      exact .inl (congrArg (Ending.left · _) (relocate_zero _))
  | unfinished => exact .inr (.inl rfl)
  | stopped stops goneOn =>
      obtain ⟨limit, isLimit, notBound, rfl⟩ := stops
      exact .inr (.inr ⟨limit, _, isLimit, rfl, notBound, goneOn⟩)

/-- Once return signals are taken, only a fault leaves a computation early. -/
theorem Action.fault_of_catchReturn
    {action : Action Cell}
    {exit : Exit}
    {machine after : Machine}
    (leaves : catchReturn action machine = .left exit after) :
    ∃ fault, exit = .failing fault := by
  unfold catchReturn at leaves
  split at leaves
  · cases leaves
  · next notReturning =>
      cases exit with
      | returning cell => exact absurd leaves (notReturning cell after)
      | failing fault => exact ⟨fault, rfl⟩

namespace Program

variable {limits : Limits} {members : List Node} {machine : Machine} {ending : Ending Value}

/-- More fuel does not change how a program has ended. -/
theorem execute_of_le
    {fuel more : Nat}
    (enough : fuel ≤ more)
    (finished : execute limits fuel members machine ≠ .unfinished) :
    execute limits more members machine = execute limits fuel members machine := by
  have inStep :=
    ((Pairing.looser.lawful (.refl limits)).execute enough (.inl trivial) members).runs
      (Pairing.looser.paired_iff.mpr (Eq.refl machine))
  rcases inStep.of_looser with same | unfinished | ⟨limit, _, isLimit, _, notLimit, _⟩
  · exact same
  · exact absurd unfinished finished
  · exact absurd isLimit notLimit

/-- With enough fuel, a program that is started on a machine comes to an ending. -/
def EndsWith
    (limits : Limits)
    (members : List Node)
    (machine : Machine)
    (ending : Ending Value) : Prop :=
  ending ≠ .unfinished ∧ ∃ fuel, execute limits fuel members machine = ending

theorem EndsWith.of_done
    {value : Value}
    {final : Machine}
    (fuel : Nat)
    (ended : execute limits fuel members machine = .done value final) :
    EndsWith limits members machine (.done value final) :=
  ⟨by simp, fuel, ended⟩

theorem EndsWith.of_left
    {exit : Exit}
    {final : Machine}
    (fuel : Nat)
    (ended : execute limits fuel members machine = .left exit final) :
    EndsWith limits members machine (.left exit final) :=
  ⟨by simp, fuel, ended⟩

/-- A program that ends leaves a machine behind, and what it prints comes on top. -/
theorem EndsWith.machine?
    (ends : EndsWith limits members machine ending) :
    ∃ final, ending.machine? = some final ∧ machine.sink.GrowsTo final.sink := by
  obtain ⟨finished, fuel, rfl⟩ := ends
  have grows : (execute limits fuel members machine).Meets outputGrows machine :=
    outputGrows.lawful.execute limits fuel (fun _ _ => trivial) machine trivial
  cases ended : execute limits fuel members machine with
  | done value final =>
      rw [ended] at grows
      exact ⟨final, rfl, grows.relates⟩
  | left exit final =>
      rw [ended] at grows
      exact ⟨final, rfl, grows.relates⟩
  | unfinished => exact absurd ended finished

/-- A program that ends does so in one way only, and in the same way with more fuel. -/
theorem EndsWith.of_le
    (ends : EndsWith limits members machine ending) :
    ∃ fuel, ∀ more, fuel ≤ more → execute limits more members machine = ending := by
  obtain ⟨finished, fuel, rfl⟩ := ends
  exact ⟨fuel, fun more enough => execute_of_le enough finished⟩

/-- A program ends in one way only. -/
theorem EndsWith.unique
    {other : Ending Value}
    (ends : EndsWith limits members machine ending)
    (endsOther : EndsWith limits members machine other) :
    ending = other := by
  obtain ⟨fuel, same⟩ := ends.of_le
  obtain ⟨otherFuel, sameOther⟩ := endsOther.of_le
  exact (same _ (Nat.le_max_left fuel otherFuel)).symm.trans
    (sameOther _ (Nat.le_max_right fuel otherFuel))

/-- A program is left early by faults only; a return signal ends it with a value. -/
theorem fault_of_execute
    {fuel : Nat}
    {exit : Exit}
    {after : Machine}
    (leaves : execute limits fuel members machine = .left exit after) :
    ∃ fault, exit = .failing fault := by
  rcases Action.bind_eq_left_iff.mp leaves with inBody | ⟨_, _, _, inContents⟩
  · unfold Action.inScope at inBody
    cases ended : body limits fuel members (machine.withFrames FrameStack.push) with
    | left inner between =>
        rw [ended] at inBody
        cases inBody
        exact Action.fault_of_catchReturn ended
    | done | unfinished =>
        rw [ended] at inBody
        cases inBody
  · cases inContents

end Program

end CellScript
