import CellScript.Proofs.Expressions

namespace CellScript

/-!
# Counting loops

A loop makes as many rounds as its condition is truthy for, each of them from the
machine that the one before has left.  A cap of that many rounds or more changes
nothing, and a smaller one stops the loop after as many rounds as it allows.  So a
script that counts up to a number ends with this number or is stopped by its cap.
-/

/-! ## Rounds -/

namespace Evaluation

section

variable {limit : Option Nat} {condition body : Action Cell} {fuel made : Nat}
variable {machine tested : Machine} {cell : Cell}

/-- A loop whose condition is falsy has come to its end. -/
theorem rounds_of_falsy
    (holds : condition machine = .done cell tested)
    (falsy : (tested.heap.read cell).isTruthy = false) :
    rounds limit condition body (fuel + 1) made machine = .done () tested := by
  rw [rounds, Action.bind_of_done holds]
  simp only [Action.contents, Action.look, Action.bind_apply, falsy]
  rfl

/-- A loop whose condition is truthy after as many rounds as its cap allows is stopped. -/
theorem rounds_of_cap
    (isBound : limit = some made)
    (holds : condition machine = .done cell tested)
    (truthy : (tested.heap.read cell).isTruthy = true) :
    rounds limit condition body (fuel + 1) made machine =
      .left (.failing (.tooManyIterations made)) tested := by
  have bites : limit.filter (· < made + 1) = some made := by simp [isBound]
  rw [rounds, Action.bind_of_done holds]
  simp only [Action.contents, Action.look, Action.bind_apply, truthy, if_true, bites]
  rfl

end

/--
A loop goes round some number of times: on a machine that is reached after so many
rounds, its condition is truthy if there are rounds left, testing it loses nothing of
what has been reached, and its body goes on to the next round.
-/
structure GoesRound
    (limits : Limits)
    (condition body : Node)
    (total : Nat)
    (reached : Nat → Machine → Prop) : Prop where
  tests : ∀ made machine, made ≤ total → reached made machine →
    ∃ cell tested,
      (∀ᶠ fuel in Filter.atTop, evaluate limits fuel condition machine = .done cell tested) ∧
        (tested.heap.read cell).isTruthy = decide (made < total) ∧
        reached made tested
  goesOn : ∀ made machine, made < total → reached made machine →
    ∃ cell after,
      (∀ᶠ fuel in Filter.atTop, evaluate limits fuel body machine = .done cell after) ∧
        reached (made + 1) after

namespace GoesRound

variable {limits : Limits} {condition body : Node} {total : Nat}
variable {reached : Nat → Machine → Prop} {machine : Machine}

/-- A loop makes any number of rounds that it has to make and may make. -/
theorem eventually_roundsMade
    (goesRound : GoesRound limits condition body total reached)
    (start : reached 0 machine)
    {made : Nat}
    (within : made ≤ total)
    (allowed : ∀ bound ∈ limits.maxIterations, made ≤ bound) :
    ∃ after,
      (∀ᶠ fuel in Filter.atTop,
        RoundsMade limits.maxIterations
          (operand (evaluate limits fuel) [condition, body] 0)
          (operand (evaluate limits fuel) [condition, body] 1) made machine after) ∧
        reached made after := by
  induction made with
  | zero => exact ⟨machine, .of_forall fun _ => .none machine, start⟩
  | succ made inductionHypothesis =>
      obtain ⟨between, roundsMade, isReached⟩ := inductionHypothesis (Nat.le_of_succ_le within)
        fun bound isBound => Nat.le_of_succ_le (allowed bound isBound)
      obtain ⟨cell, tested, holds, isTruthy, stillReached⟩ :=
        goesRound.tests made between (Nat.le_of_succ_le within) isReached
      obtain ⟨value, after, ends, isNext⟩ := goesRound.goesOn made tested within stillReached
      have truthy := isTruthy.trans (decide_eq_true within)
      refine ⟨after, ?_, isNext⟩
      filter_upwards [roundsMade, holds, ends] with fuel roundsMade holds ended
      exact .another roundsMade holds truthy allowed ended

/-- A loop that its cap lets make all its rounds comes to its end. -/
theorem eventually_done
    (goesRound : GoesRound limits condition body total reached)
    (start : reached 0 machine)
    (allowed : ∀ bound ∈ limits.maxIterations, total ≤ bound) :
    ∃ cell last after,
      (∀ᶠ fuel in Filter.atTop,
        evaluate limits fuel (.form "while" [condition, body]) machine = .done cell after) ∧
        reached total last ∧
        last.GrowsTo after := by
  obtain ⟨between, roundsMade, isReached⟩ :=
    goesRound.eventually_roundsMade start (Nat.le_refl total) allowed
  obtain ⟨cell, last, holds, isTruthy, stillReached⟩ :=
    goesRound.tests total between (Nat.le_refl total) isReached
  have falsy := isTruthy.trans (decide_eq_false (Nat.lt_irrefl total))
  refine ⟨(last.heap.allocate .none).1, last, _, eventually_succ ?_, stillReached,
    .allocate last .none⟩
  filter_upwards [roundsMade, holds, Filter.eventually_ge_atTop (total + 1)]
    with fuel roundsMade holds enough
  obtain ⟨left, remains⟩ : ∃ left, fuel - total = left + 1 := ⟨fuel - total - 1, by omega⟩
  have stands := rounds_of_roundsMade roundsMade (Nat.le_of_succ_le enough)
  rw [remains] at stands
  exact Action.bind_of_done (stands.trans (rounds_of_falsy holds falsy))

/-- A loop that has more rounds to make than its cap allows is stopped by it. -/
theorem eventually_failing
    (goesRound : GoesRound limits condition body total reached)
    (start : reached 0 machine)
    {bound : Nat}
    (isBound : limits.maxIterations = some bound)
    (exceeds : bound < total) :
    ∃ last,
      (∀ᶠ fuel in Filter.atTop,
        evaluate limits fuel (.form "while" [condition, body]) machine =
          .left (.failing (.tooManyIterations bound)) last) ∧
        reached bound last := by
  have allowed : ∀ other ∈ limits.maxIterations, bound ≤ other := by
    intro other isOther
    rw [isBound] at isOther
    exact Nat.le_of_eq (Option.some.inj isOther)
  have within := Nat.le_of_lt exceeds
  obtain ⟨between, roundsMade, isReached⟩ :=
    goesRound.eventually_roundsMade start within allowed
  obtain ⟨cell, last, holds, isTruthy, stillReached⟩ :=
    goesRound.tests bound between within isReached
  have truthy := isTruthy.trans (decide_eq_true exceeds)
  refine ⟨last, eventually_succ ?_, stillReached⟩
  filter_upwards [roundsMade, holds, Filter.eventually_ge_atTop (bound + 1)]
    with fuel roundsMade holds enough
  obtain ⟨left, remains⟩ : ∃ left, fuel - bound = left + 1 := ⟨fuel - bound - 1, by omega⟩
  have stands := rounds_of_roundsMade roundsMade (Nat.le_of_succ_le enough)
  rw [remains] at stands
  exact Action.bind_of_left (stands.trans (rounds_of_cap isBound holds truthy))

end GoesRound

end Evaluation

/-! ## Counting up to a number -/

namespace Counting

open Evaluation

/-- The text of a script that counts from zero up to a number. -/
def text (number : Int64) : String :=
  "(let i 0) (while (< i " ++ Value.integerText number ++ ") (set i (+ i 1))) i"

/-- The counter as an expression. -/
def counter : Node :=
  .leaf (.word "i")

/-- The condition under which counting goes on. -/
def condition (number : Int64) : Node :=
  .form "<" [counter, .leaf (.number number)]

/-- The next number takes the place of the one before. -/
def increase : Node :=
  .form "set" [counter, .form "+" [counter, .leaf (.number 1)]]

/-- The members of the script. -/
def members (number : Int64) : List Node :=
  [.form "let" [counter, .leaf (.number 0)], .form "while" [condition number, increase], counter]

theorem ofSource_text
    (number : Int64) :
    Node.ofSource (text number) = .ok (members number) := by
  have isText : String.ofList (Node.spaced (members number)) = text number := by
    unfold text
    apply String.toList_injective
    simp [members, counter, condition, increase, Node.form, Node.spaced, Node.characters,
      Leaf.characters, Value.integerText]
    rfl
  rw [← isText]
  apply Node.ofSource_spaced
  have words : ∀ word ∈ ["let", "i", "while", "<", "set", "+"], (Leaf.word word).Readable :=
    fun word isWord => Leaf.readable_word (by revert word; decide) (by revert word; decide)
  simp only [List.forall_mem_cons] at words
  simp [members, counter, condition, increase, Node.form, Node.readable_block_iff,
    Node.readable_leaf_iff, Leaf.readable_number, words]

/-- The number of rounds that counting up to a number takes. -/
def total (number : Int64) : Nat :=
  number.toInt.toNat

/-- A loop that counts up to a negative number makes no round, as if it counted up to zero. -/
theorem toInt_max_zero
    (number : Int64) :
    (max number 0).toInt = total number := by
  have zero : (0 : Int64).toInt = 0 := rfl
  rw [total, show max number 0 = if number ≤ 0 then 0 else number from rfl]
  split
  · next notPositive =>
      rw [Int64.le_iff_toInt_le] at notPositive
      omega
  · next positive =>
      rw [Int64.le_iff_toInt_le] at positive
      omega

/-- After some rounds the counter's cell holds their number, and no name has a new meaning. -/
structure Reached
    (frames : FrameStack)
    (sink : Sink)
    (cell : Cell)
    (made : Nat)
    (machine : Machine) : Prop where
  frames : machine.frames = frames
  sink : machine.sink = sink
  counts : ∃ count : Int64, count.toInt = made ∧ machine.heap.Holds cell (.integer count)

section

variable {limits : Limits} {frames : FrameStack} {sink : Sink} {cell : Cell} {number : Int64}
variable {made : Nat} {machine after : Machine}

theorem Reached.mono
    (reached : Reached frames sink cell made machine)
    (grows : machine.GrowsTo after) :
    Reached frames sink cell made after := by
  obtain ⟨count, isMade, holds⟩ := reached.counts
  exact ⟨grows.frames.trans reached.frames, grows.sink.trans reached.sink,
    ⟨count, isMade, holds.mono grows.heap⟩⟩

/-- The counter has the number of rounds as its value. -/
theorem Reached.denotes_counter
    (reached : Reached frames sink cell made machine)
    (bound : frames.lookup? "i" = some cell)
    (limits : Limits) :
    ∃ count : Int64,
      count.toInt = made ∧ Denotes limits machine counter (.integer count) := by
  obtain ⟨count, isMade, holds⟩ := reached.counts
  have means : machine.Means "i" (.integer count) :=
    ⟨cell, by rw [reached.frames, bound], holds⟩
  exact ⟨count, isMade, denotes_word (by decide) rfl means⟩

/-- Each round tests the counter against the number and then increases it by one. -/
theorem goesRound
    (bound : frames.lookup? "i" = some cell) :
    GoesRound limits (condition number) increase (total number) (Reached frames sink cell) where
  tests made machine _ reached := by
    obtain ⟨count, isMade, denotes⟩ := reached.denotes_counter bound limits
    have compared : Denotes limits machine (condition number) _ :=
      denotes_comparison (Comparison.ofWord_sign .less) denotes
        (denotes_number limits machine number)
    obtain ⟨result, tested, ends, grows, holds⟩ := compared machine (.refl machine)
    refine ⟨result, tested, ends, ?_, reached.mono grows⟩
    rw [holds.reads, isMade]
    apply decide_eq_decide.mpr
    rw [total]
    omega
  goesOn made machine within reached := by
    obtain ⟨count, isMade, denotes⟩ := reached.denotes_counter bound limits
    obtain ⟨next, isNext, given⟩ :
        ∃ next : Int64, next.toInt = made + 1 ∧ Value.ofExact (made + 1) = .integer next := by
      have atMost := number.toInt_le
      have least : Int64.minValue.toInt ≤ 0 := by decide
      rw [total] at within
      exact exists_ofExact (by omega) (by omega)
    have added : Denotes limits machine (.form "+" [counter, .leaf (.number 1)])
        (.integer next) :=
      denotes_arithmetic (Arithmetic.ofWord_sign .add) denotes (denotes_number limits machine 1)
        fun _ => by
          rw [← given, ← isMade]
          exact Arithmetic.onScalars_of_result rfl
    obtain ⟨_, _, holds⟩ := reached.counts
    obtain ⟨absent, after, ends, frames, sink, counted⟩ :=
      eventually_assignment added (by rw [reached.frames, bound]) holds.has
    exact ⟨absent, after, ends,
      ⟨frames.trans reached.frames, sink.trans reached.sink, next, isNext, counted⟩⟩

/-- Before the loop the counter means a cell that holds zero. -/
theorem eventually_started
    (limits : Limits)
    (machine : Machine) :
    ∃ cell absent started,
      (∀ᶠ fuel in Filter.atTop,
        evaluate limits fuel (.form "let" [counter, .leaf (.number 0)])
          (Program.opened machine) = .done absent started) ∧
        started.frames.lookup? "i" = some cell ∧
        Reached started.frames machine.sink cell 0 started := by
  obtain ⟨cell, absent, after, ends, grows, holds⟩ :=
    eventually_declaration (denotes_number limits (Program.opened machine) 0) "i"
  exact ⟨cell, absent, _, ends, FrameStack.lookup?_declare_self _ _ _,
    ⟨rfl, grows.sink, 0, rfl, holds⟩⟩

end

/--
A script that counts from zero up to a number ends with this number, or with zero if the
number is negative, unless its cap is smaller; then it fails and names the cap.  In either
case it leaves nothing but cells, so there are as many frames as before.
-/
theorem counts_up_to_number_or_cap
    (limits : Limits)
    (machine : Machine)
    (number : Int64) :
    ((∀ limit ∈ limits.maxIterations, (max number 0).toInt ≤ limit) →
      ∃ heap,
        Program.RunsTo limits (text number) machine
          (.done (.integer (max number 0)) { machine with heap })) ∧
      ∀ limit ∈ limits.maxIterations,
        limit < (max number 0).toInt →
        ∃ heap,
          Program.RunsTo limits (text number) machine
            (.left (.failing (.tooManyIterations limit)) { machine with heap }) := by
  obtain ⟨cell, absent, started, begins, bound, isStarted⟩ := eventually_started limits machine
  have goes : GoesRound limits (condition number) increase (total number)
      (Reached started.frames machine.sink cell) := goesRound bound
  rw [toInt_max_zero]
  constructor
  · intro allowed
    obtain ⟨_, last, looped, loops, isReached, grows⟩ :=
      goes.eventually_done isStarted fun limit isLimit => Int.ofNat_le.mp (allowed limit isLimit)
    have isLast := isReached.mono grows
    obtain ⟨count, isTotal, denotes⟩ := isLast.denotes_counter bound limits
    obtain rfl : count = max number 0 :=
      Int64.toInt_inj.mp (isTotal.trans (toInt_max_zero number).symm)
    obtain ⟨result, final, ends, toFinal, holds⟩ := denotes looped (.refl looped)
    refine ⟨final.heap, ?_⟩
    filter_upwards [begins, loops, ends] with fuel begun looped ended
    have executed := Program.execute_of_done (members number)
      ((Action.bind_of_done begun).trans
        ((Action.bind_of_done looped).trans (Action.bind_of_done ended)))
    rw [holds.reads, toFinal.sink, isLast.sink] at executed
    rw [Program.run, ofSource_text]
    exact executed
  · intro limit isLimit exceeds
    obtain ⟨last, stops, isReached⟩ :=
      goes.eventually_failing isStarted isLimit (Int.ofNat_lt.mp exceeds)
    refine ⟨last.heap, ?_⟩
    filter_upwards [begins, stops] with fuel begun stopped
    have executed := Program.execute_of_failing (members number)
      ((Action.bind_of_done begun).trans (Action.bind_of_left stopped))
    rw [isReached.sink] at executed
    rw [Program.run, ofSource_text]
    exact executed

/--
Counting to three takes three rounds, so a cap of three lets it pass and a cap of two
does not.
-/
theorem counts_to_three_under_cap_of_three_but_not_of_two :
    text 3 = "(let i 0) (while (< i 3) (set i (+ i 1))) i" ∧
      (∃ heap,
        Program.RunsTo ⟨some 3⟩ (text 3) (Machine.start none)
          (.done (.integer 3) { Machine.start none with heap })) ∧
      ∃ heap,
        Program.RunsTo ⟨some 2⟩ (text 3) (Machine.start none)
          (.left (.failing (.tooManyIterations 2)) { Machine.start none with heap }) := by
  have atThree := (counts_up_to_number_or_cap ⟨some 3⟩ (Machine.start none) 3).1
  have atTwo := (counts_up_to_number_or_cap ⟨some 2⟩ (Machine.start none) 3).2
  refine ⟨by decide +kernel, atThree ?_, atTwo 2 rfl (by decide)⟩
  rintro limit ⟨⟩
  decide

end Counting

end CellScript
