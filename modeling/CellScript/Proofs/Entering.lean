import CellScript.Proofs.IterationCap
import CellScript.Proofs.Visits

namespace CellScript.Evaluation

/-!
# What is entered

Whatever an evaluation comes to evaluate is among its visits.  These can be computed
from the node, so they tell which nodes are entered and on which machines, and what is
kept from every node to its visits holds of all that an evaluation reaches.
-/

/-! ## Nodes in turn -/

section

variable {evaluate : Evaluator} {earlier later : List Node} {node : Node}
variable {machine between : Machine}

/-- A node is visited in turn once the nodes before it have come to their ends. -/
theorem mem_visitsInTurn
    (passes : Passes evaluate earlier machine between) :
    (node, between) ∈ visitsInTurn evaluate (earlier ++ node :: later) machine := by
  induction passes with
  | nil => exact List.mem_cons_self
  | cons ended _ inductionHypothesis =>
      rw [List.cons_append, visitsInTurn, ended]
      exact List.mem_cons_of_mem _ inductionHypothesis

theorem mem_visitsInTurn_take
    {count : Nat}
    (passes : Passes evaluate earlier machine between)
    (within : earlier.length < count) :
    (node, between) ∈ visitsInTurn evaluate ((earlier ++ node :: later).take count) machine := by
  obtain ⟨left, remains⟩ : ∃ left, count - earlier.length = left + 1 :=
    ⟨count - earlier.length - 1, by omega⟩
  rw [List.take_append, List.take_of_length_le (Nat.le_of_lt within), remains,
    List.take_succ_cons]
  exact mem_visitsInTurn passes

end

/-! ## Loops -/

section

variable {evaluate : Evaluator} {limit : Option Nat} {operands : List Node} {fuel made : Nat}
variable {machine between tested : Machine} {cell : Cell}

/-- The visits of a round come after that of the condition. -/
theorem visitsOfRounds_of_truthy
    (holds : operand evaluate operands 0 machine = .done cell tested)
    (truthy : (tested.heap.read cell).isTruthy = true)
    (allowed : ∀ bound ∈ limit, made < bound) :
    visitsOfRounds evaluate limit operands (fuel + 1) made machine =
      visitOf operands[0]? machine ++
        (visitOf operands[1]? tested ++
          (operand evaluate operands 1 tested).onDone fun _ after =>
            visitsOfRounds evaluate limit operands fuel (made + 1) after) := by
  rw [visitsOfRounds, holds]
  simp only [Ending.onDone, truthy, if_true, filter_lt_eq_none_iff.mpr allowed]

/-- The visits of the rounds still to be made are visits of the loop. -/
theorem visitsOfRounds_subset
    (roundsMade : RoundsMade limit (operand evaluate operands 0) (operand evaluate operands 1)
      made machine between)
    (enough : made ≤ fuel) :
    visitsOfRounds evaluate limit operands (fuel - made) made between ⊆
      visitsOfRounds evaluate limit operands fuel 0 machine := by
  induction roundsMade with
  | none machine => exact List.Subset.refl _
  | @another made before between tested after cell value
      earlier holds truthy allowed ended inductionHypothesis =>
      obtain ⟨left, fuelLeft⟩ : ∃ left, fuel - made = left + 1 :=
        ⟨fuel - made - 1, by omega⟩
      have fewer : fuel - (made + 1) = left := by omega
      have before := inductionHypothesis (Nat.le_of_succ_le enough)
      rw [fuelLeft, visitsOfRounds_of_truthy holds truthy allowed, ended] at before
      rw [fewer]
      exact fun visit isVisit =>
        before (List.mem_append_right _ (List.mem_append_right _ isVisit))

end

/-! ## Forms and sequences -/

section

variable {limits : Limits} {fuel : Nat} {node inner : Node} {machine between : Machine}

theorem visits_form
    (limits : Limits)
    (fuel : Nat)
    (evaluate : Evaluator)
    (word : String)
    (operands : List Node)
    (machine : Machine) :
    visits limits fuel evaluate (.form word operands) machine =
      visitsOfForm limits fuel evaluate operands machine (.leaf (.word word)) := rfl

theorem visits_sequence
    {evaluate : Evaluator}
    {members : List Node}
    (isSequence : Node.isSequence members = true) :
    visits limits fuel evaluate (.block members) machine =
      visitsInTurn evaluate members (machine.withFrames FrameStack.push) := by
  cases members with
  | nil => rfl
  | cons first others => rw [visits, if_pos isSequence]

/-- The value of an assignment is visited unless its target is a name without a meaning. -/
theorem mem_visitsOfValue
    {target : Target}
    {value : Node}
    {rest : List Node}
    (bound : ∀ name, (target = .name name ∨ ∃ position, target = .position name position) →
      ∃ cell, machine.frames.lookup? name = some cell) :
    (value, machine) ∈ visitsOfValue (value :: rest) machine target := by
  cases target with
  | slot cell => exact List.mem_cons_self
  | name name =>
      obtain ⟨cell, isBound⟩ := bound name (.inl rfl)
      rw [visitsOfValue, isBound]
      exact List.mem_cons_self
  | position name position =>
      obtain ⟨cell, isBound⟩ := bound name (.inr ⟨position, rfl⟩)
      rw [visitsOfValue, isBound]
      exact List.mem_cons_self

/-- The condition of a loop is visited after any number of rounds. -/
theorem condition_mem_visitsOfRounds
    {evaluate : Evaluator}
    {limit : Option Nat}
    {operands : List Node}
    {made : Nat}
    {condition : Node}
    (roundsMade : RoundsMade limit (operand evaluate operands 0) (operand evaluate operands 1)
      made machine between)
    (enough : made < fuel)
    (isCondition : operands[0]? = some condition) :
    (condition, between) ∈ visitsOfRounds evaluate limit operands fuel 0 machine := by
  obtain ⟨left, fuelLeft⟩ : ∃ left, fuel - made = left + 1 := ⟨fuel - made - 1, by omega⟩
  apply visitsOfRounds_subset roundsMade (Nat.le_of_lt enough)
  rw [fuelLeft, visitsOfRounds, isCondition]
  exact List.mem_cons_self

/-- The body of a loop is visited in every round. -/
theorem body_mem_visitsOfRounds
    {evaluate : Evaluator}
    {limit : Option Nat}
    {operands : List Node}
    {made : Nat}
    {tested : Machine}
    {cell : Cell}
    {body : Node}
    (roundsMade : RoundsMade limit (operand evaluate operands 0) (operand evaluate operands 1)
      made machine between)
    (enough : made < fuel)
    (isBody : operands[1]? = some body)
    (holds : operand evaluate operands 0 between = .done cell tested)
    (truthy : (tested.heap.read cell).isTruthy = true)
    (allowed : ∀ bound ∈ limit, made < bound) :
    (body, tested) ∈ visitsOfRounds evaluate limit operands fuel 0 machine := by
  obtain ⟨left, fuelLeft⟩ : ∃ left, fuel - made = left + 1 := ⟨fuel - made - 1, by omega⟩
  apply visitsOfRounds_subset roundsMade (Nat.le_of_lt enough)
  rw [fuelLeft, visitsOfRounds_of_truthy holds truthy allowed, isBody]
  exact List.mem_append_right _ List.mem_cons_self

/-- The operand that a choice takes is visited once its condition has been tested. -/
theorem mem_visitsOfChoice
    {evaluate : Evaluator}
    {condition chosen : Node}
    {rest : List Node}
    {tested : Machine}
    {cell : Cell}
    (ended : evaluate condition machine = .done cell tested)
    (isChosen :
      (condition :: rest)[if (tested.heap.read cell).isTruthy then 1 else 2]? = some chosen) :
    (chosen, tested) ∈ visitsOfChoice evaluate (condition :: rest) machine := by
  have ended : operand evaluate (condition :: rest) 0 machine = .done cell tested := ended
  rw [visitsOfChoice, ended, Ending.onDone, isChosen]
  exact List.mem_append_right _ List.mem_cons_self

/-- An operand that a form waits for is visited. -/
theorem Awaits.mem_visits
    (awaits : Awaits limits fuel node machine inner between) :
    (inner, between) ∈ visits limits fuel (evaluate limits fuel) node machine := by
  cases awaits with
  | declared | chooses | returned => exact List.mem_cons_self
  | @assigned name value rest machine cell bound =>
      show _ ∈ visitsOfValue (inner :: rest) machine (.name name)
      apply mem_visitsOfValue
      rintro _ (⟨⟨⟩⟩ | ⟨_, ⟨⟩⟩)
      exact ⟨cell, bound⟩
  | assignedAt ownerEnds indexEnds resolved bound =>
      refine List.mem_cons_of_mem _ ?_
      rw [ownerEnds]
      refine List.mem_cons_of_mem _ ?_
      rw [indexEnds, Ending.onDone, resolved]
      apply mem_visitsOfValue
      rintro name (rfl | ⟨position, isPosition⟩)
      · exact absurd resolved (indexTarget?_ne_name name)
      · exact bound name position isPosition
  | chosen ended truthy => exact mem_visitsOfChoice ended (by rw [truthy]; rfl)
  | otherwise ended falsy => exact mem_visitsOfChoice ended (by rw [falsy]; rfl)
  | loops rounds enough => exact condition_mem_visitsOfRounds rounds enough rfl
  | repeated rounds enough ended truthy allowed =>
      exact body_mem_visitsOfRounds rounds enough rfl ended truthy allowed
  | item passes | printed passes => exact mem_visitsInTurn passes
  | indexed passes within => exact mem_visitsInTurn_take passes within
  | compared meaning passes within | computed meaning passes within =>
      rw [visits_form, visitsOfForm, meaning]
      exact mem_visitsInTurn_take passes within
  | actual meaning bound callable passes within =>
      rw [visits_form, visitsOfForm, meaning]
      dsimp only
      rw [visitsOfName, bound, Option.map_some, callable]
      exact List.mem_append_left _ (mem_visitsInTurn_take passes within)

/-- What an evaluation enters is visited. -/
theorem Enters.mem_visits
    (enters : Enters limits fuel node machine inner between) :
    (inner, between) ∈ visits limits fuel (evaluate limits fuel) node machine := by
  cases enters with
  | operand awaits => exact awaits.mem_visits
  | member isSequence passes =>
      rw [visits_sequence isSequence]
      exact mem_visitsInTurn passes
  | owner => exact List.mem_cons_self
  | index ownerEnds =>
      refine List.mem_cons_of_mem _ ?_
      rw [ownerEnds]
      exact List.mem_cons_self
  | body meaning bound callable known declared =>
      rw [visits_form, visitsOfForm, meaning]
      dsimp only
      rw [visitsOfName, bound, Option.map_some, callable]
      refine List.mem_append_right _ ?_
      rw [known, Ending.onDone, declared]
      exact List.mem_cons_self

end

/-! ## What is reached -/

/--
What holds of a node and the machine on which it is evaluated holds of all that its
evaluation reaches, if every node hands it on to its visits.
-/
theorem Reaches.keeps
    {limits : Limits}
    {holds : Node → Machine → Prop}
    (handsOn : ∀ fuel node machine,
      holds node machine →
      ∀ visit ∈ visits limits fuel (evaluate limits fuel) node machine, holds visit.1 visit.2)
    {fuel left : Nat}
    {node deep : Node}
    {machine start : Machine}
    (reaches : Reaches limits fuel node machine left deep start)
    (holdsNode : holds node machine) :
    holds deep start := by
  induction reaches with
  | here => exact holdsNode
  | deeper enters _ inductionHypothesis =>
      exact inductionHypothesis (handsOn _ _ _ holdsNode _ enters.mem_visits)

end CellScript.Evaluation
