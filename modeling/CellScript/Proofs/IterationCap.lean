import CellScript.Proofs.CutShort
import CellScript.Proofs.Fuel

namespace CellScript

/-!
# The iteration cap

Every loop counts its own rounds and holds their number against the cap before
each of them.  So a run that its cap stops has come to one loop that made all the
rounds it may and whose condition was truthy once more; and a run that its cap
does not stop ends in the same way under any looser cap.
-/

namespace Evaluation

/-- Evaluating a node comes to evaluate another one, at any depth within it. -/
inductive Reaches (limits : Limits) :
    Nat → Node → Machine → Nat → Node → Machine → Prop where
  | here
      {fuel : Nat}
      {node : Node}
      {machine : Machine} :
      Reaches limits fuel node machine fuel node machine
  | deeper
      {fuel left : Nat}
      {node inner deep : Node}
      {machine between start : Machine}
      (enters : Enters limits fuel node machine inner between)
      (reaches : Reaches limits fuel inner between left deep start) :
      Reaches limits (fuel + 1) node machine left deep start

/-- A loop that the cap stops has made all rounds it may, and its condition is truthy again. -/
theorem LoopCut.of_cap
    {limits : Limits}
    {fuel limit : Nat}
    {operands : List Node}
    {machine : Machine}
    {heap : Heap}
    {sink : Sink}
    (loopCut : LoopCut limits fuel operands machine (.cap limit heap sink)) :
    limits.maxIterations = some limit ∧
      ∃ between tested cell,
        RoundsMade limits.maxIterations
          (operand (evaluate limits fuel) operands 0)
          (operand (evaluate limits fuel) operands 1) limit machine between ∧
        operand (evaluate limits fuel) operands 0 between = .done cell tested ∧
        (tested.heap.read cell).isTruthy = true ∧
        heap = tested.heap ∧
        sink = tested.sink := by
  cases loopCut with
  | cap isBound roundsMade holds truthy =>
      exact ⟨isBound, _, _, _, roundsMade, holds, truthy, rfl, rfl⟩

/-- An evaluation that a cap stops has come to the loop that was stopped. -/
theorem reaches_loopCut
    {limits : Limits}
    {fuel limit : Nat}
    {node : Node}
    {machine : Machine}
    {heap : Heap}
    {sink : Sink}
    (isCut : (CellScript.evaluate limits fuel node machine).IsCut (.cap limit heap sink)) :
    ∃ left operands start,
      Reaches limits fuel node machine (left + 1) (.form "while" operands) start ∧
        LoopCut limits left operands start (.cap limit heap sink) := by
  -- What is entered has one unit of fuel less, so the induction is on the fuel.
  induction fuel generalizing node machine with
  | zero => cases isCut
  | succ fuel inductionHypothesis =>
      rcases isCut_origin isCut with
        ⟨inner, between, enters, inInner⟩ | ⟨operands, rfl, loopCut⟩
      · obtain ⟨left, operands, start, reaches, loopCut⟩ := inductionHypothesis inInner
        exact ⟨left, operands, start, .deeper enters reaches, loopCut⟩
      · exact ⟨fuel, operands, machine, .here, loopCut⟩

end Evaluation

namespace Program

/-- Running a program comes to evaluate a node, at any depth within one of its members. -/
def Reaches
    (limits : Limits)
    (fuel : Nat)
    (members : List Node)
    (machine : Machine)
    (left : Nat)
    (deep : Node)
    (start : Machine) : Prop :=
  ∃ earlier member later between,
    members = earlier ++ member :: later ∧
      Evaluation.Passes (evaluate limits fuel) earlier (opened machine) between ∧
      Evaluation.Reaches limits fuel member between left deep start

variable {limits looser : Limits} {members : List Node} {machine : Machine}

/-- A run that a cap stops has come to a loop, and it stops as the loop leaves it. -/
theorem loopCut_of_tooManyIterations
    {fuel limit : Nat}
    {after : Machine}
    (stopped : execute limits fuel members machine =
      .left (.failing (.tooManyIterations limit)) after) :
    ∃ left operands start,
      Reaches limits fuel members machine (left + 1) (.form "while" operands) start ∧
        Evaluation.LoopCut limits left operands start (.cap limit after.heap after.sink) := by
  have isCut :
      (execute limits fuel members machine).IsCut (.cap limit after.heap after.sink) := by
    rw [stopped]
    exact .cap
  obtain ⟨earlier, member, later, between, split, _, passes, inMember⟩ :=
    cutsAmong_of_isCut isCut
  obtain ⟨left, operands, start, reaches, loopCut⟩ := Evaluation.reaches_loopCut inMember
  exact ⟨left, operands, start, ⟨earlier, member, later, between, split, passes, reaches⟩,
    loopCut⟩

/-- With the same fuel, a run under a looser cap ends likewise or was not yet stopped. -/
theorem inStep_of_atMost
    (atMost : limits.AtMost looser)
    {fuel more : Nat}
    (enough : fuel ≤ more)
    (members : List Node)
    (machine : Machine) :
    (execute limits fuel members machine).InStep (Pairing.looser limits looser)
      (execute looser more members machine) :=
  ((Pairing.looser.lawful atMost).execute enough (.inl trivial) members).runs
    (Pairing.looser.paired_iff.mpr (Eq.refl machine))

/-- A program that no cap has stopped ends in the same way with a looser one. -/
theorem EndsWith.of_atMost
    (atMost : limits.AtMost looser)
    {ending : Ending Value}
    (ends : EndsWith limits members machine ending)
    (notStopped : ∀ limit after,
      ending ≠ .left (.failing (.tooManyIterations limit)) after) :
    EndsWith looser members machine ending := by
  obtain ⟨finished, fuel, rfl⟩ := ends
  have inStep := inStep_of_atMost atMost (Nat.le_refl fuel) members machine
  rcases inStep.of_looser with same | unfinished | ⟨limit, after, _, stopped, _⟩
  · exact ⟨finished, fuel, same⟩
  · exact absurd unfinished finished
  · exact absurd stopped (notStopped limit after)

/-- What a run has printed when its cap stops it is printed under a looser cap as well. -/
theorem EndsWith.growsTo_of_atMost
    (atMost : limits.AtMost looser)
    {limit : Nat}
    {after final : Machine}
    {ending : Ending Value}
    (stopped : EndsWith limits members machine
      (.left (.failing (.tooManyIterations limit)) after))
    (ends : EndsWith looser members machine ending)
    (leaves : ending.machine? = some final) :
    after.sink.GrowsTo final.sink := by
  obtain ⟨fuel, same⟩ := stopped.of_le
  obtain ⟨otherFuel, sameOther⟩ := ends.of_le
  have inStep :=
    inStep_of_atMost atMost (Nat.le_max_left fuel otherFuel) members machine
  rw [same fuel (Nat.le_refl fuel), sameOther _ (Nat.le_max_right fuel otherFuel)] at inStep
  rcases inStep.of_looser with same | unfinished | ⟨_, _, _, stops, _, grows⟩
  · rw [same] at leaves
    cases leaves
    exact .refl _
  · cases unfinished
  · cases stops
    exact grows final leaves

/--
A cap only cuts runs short.  What ends before its cap stops it ends in the same
way under a looser cap.  What is stopped has come to one loop that made exactly as
many rounds as the cap allows and whose condition then was truthy once more; it
stops there, and a run under a looser cap prints what it has printed, and goes on.
-/
theorem cap_only_cuts_short
    (atMost : limits.AtMost looser)
    (members : List Node)
    (machine : Machine) :
    (∀ ending,
      EndsWith limits members machine ending →
      (∀ limit after, ending ≠ .left (.failing (.tooManyIterations limit)) after) →
      EndsWith looser members machine ending) ∧
    ∀ limit after,
      EndsWith limits members machine (.left (.failing (.tooManyIterations limit)) after) →
      limits.maxIterations = some limit ∧
      (∃ fuel left operands start between tested cell,
        execute limits fuel members machine =
          .left (.failing (.tooManyIterations limit)) after ∧
        Reaches limits fuel members machine (left + 1) (.form "while" operands) start ∧
        Evaluation.RoundsMade limits.maxIterations
          (Evaluation.operand (evaluate limits left) operands 0)
          (Evaluation.operand (evaluate limits left) operands 1) limit start between ∧
        Evaluation.operand (evaluate limits left) operands 0 between = .done cell tested ∧
        (tested.heap.read cell).isTruthy = true ∧
        after.heap = tested.heap ∧
        after.sink = tested.sink) ∧
      ∀ ending final,
        EndsWith looser members machine ending →
        ending.machine? = some final →
        after.sink.GrowsTo final.sink := by
  refine ⟨fun ending ends notStopped => ends.of_atMost atMost notStopped, ?_⟩
  intro limit after stopped
  have grows {ending : Ending Value} {final : Machine}
      (ends : EndsWith looser members machine ending)
      (leaves : ending.machine? = some final) :
      after.sink.GrowsTo final.sink :=
    stopped.growsTo_of_atMost atMost ends leaves
  obtain ⟨_, fuel, ended⟩ := stopped
  obtain ⟨left, operands, start, reaches, loopCut⟩ := loopCut_of_tooManyIterations ended
  obtain ⟨isBound, between, tested, cell, roundsMade, holds, truthy, heap, sink⟩ :=
    loopCut.of_cap
  exact
    ⟨isBound,
      ⟨fuel, left, operands, start, between, tested, cell, ended, reaches, roundsMade, holds,
        truthy, heap, sink⟩,
      fun _ _ => grows⟩

/--
A loop that never ends prints one line with a cap of one round, and two lines with a cap
of two.
-/
theorem cap_of_one_round_cuts_printing_short :
    let printing := Node.form "print" [.leaf (.text "x")]
    let members := [Node.form "while" [.leaf (.number 1), printing]]
    Limits.AtMost ⟨some 1⟩ ⟨some 2⟩ ∧
      ∃ after final,
        EndsWith ⟨some 1⟩ members (Machine.start none)
          (.left (.failing (.tooManyIterations 1)) after) ∧
        after.sink.written = "x\n".toUTF8 ∧
        EndsWith ⟨some 2⟩ members (Machine.start none)
          (.left (.failing (.tooManyIterations 2)) final) ∧
        final.sink.written = "x\nx\n".toUTF8 ∧
        after.sink.GrowsTo final.sink := by
  intro printing members
  have atMost : Limits.AtMost ⟨some 1⟩ ⟨some 2⟩ := by
    rintro bound ⟨⟩
    exact ⟨1, rfl, by decide⟩
  have stopped := (cap_only_cuts_short atMost members (Machine.start none)).2
  have ends : EndsWith ⟨some 1⟩ members (Machine.start none)
      (.left (.failing (.tooManyIterations 1)) _) := .of_left 5 rfl
  have endsLater : EndsWith ⟨some 2⟩ members (Machine.start none)
      (.left (.failing (.tooManyIterations 2)) _) := .of_left 5 rfl
  exact ⟨atMost, _, _, ends, rfl, endsLater, rfl,
    (stopped 1 _ ends).2.2 _ _ endsLater rfl⟩

end Program

end CellScript
