import CellScript.Proofs.Calls
import CellScript.Proofs.Fuel
import CellScript.Proofs.Mutation
import CellScript.Proofs.OperatorPrograms
import Mathlib.Order.Filter.AtTopBot.Basic

namespace CellScript

/-!
# Expressions

With enough fuel, an expression comes to a value and does nothing to the machine but
add cells.  For each kind of form this is said once, without naming any fuel, and in
such a way that it still holds after other expressions have added their cells.
-/

/-! ## Machines that gain cells -/

namespace Heap

/-- A heap has a cell, which holds a value. -/
structure Holds (heap : Heap) (cell : Cell) (value : Value) : Prop where
  has : heap.Has cell
  reads : heap.read cell = value

theorem Holds.mono
    {before after : Heap}
    {cell : Cell}
    {value : Value}
    (holds : before.Holds cell value)
    (grows : before.GrowsTo after) :
    after.Holds cell value where
  has := Nat.lt_of_lt_of_le holds.has grows.size
  reads := (grows.reads cell holds.has).trans holds.reads

/-- A new cell holds the value that it was made for. -/
theorem holds_allocate
    (heap : Heap)
    (value : Value) :
    (heap.allocate value).2.Holds (heap.allocate value).1 value :=
  ⟨has_allocate heap value, read_allocate_self heap value⟩

theorem holds_write
    {heap : Heap}
    {cell : Cell}
    (has : heap.Has cell)
    (value : Value) :
    (heap.write cell value).Holds cell value :=
  ⟨by rwa [has_write], read_write_self value has⟩

end Heap

namespace Machine

/-- A machine has gained cells at most. -/
structure GrowsTo (before after : Machine) : Prop where
  heap : before.heap.GrowsTo after.heap
  frames : after.frames = before.frames
  sink : after.sink = before.sink

/-- A name means a cell that holds a value. -/
def Means (machine : Machine) (name : String) (value : Value) : Prop :=
  ∃ cell, machine.frames.lookup? name = some cell ∧ machine.heap.Holds cell value

namespace GrowsTo

theorem refl
    (machine : Machine) :
    machine.GrowsTo machine :=
  ⟨.refl machine.heap, rfl, rfl⟩

theorem trans
    {first second third : Machine}
    (earlier : first.GrowsTo second)
    (later : second.GrowsTo third) :
    first.GrowsTo third :=
  ⟨earlier.heap.trans later.heap, later.frames.trans earlier.frames,
    later.sink.trans earlier.sink⟩

/-- Making a cell gains nothing but a cell. -/
theorem allocate
    (machine : Machine)
    (value : Value) :
    machine.GrowsTo { machine with heap := (machine.heap.allocate value).2 } :=
  ⟨.allocate machine.heap value, rfl, rfl⟩

theorem withFrames
    {before after : Machine}
    (grows : before.GrowsTo after)
    (change : FrameStack → FrameStack) :
    (before.withFrames change).GrowsTo (after.withFrames change) :=
  ⟨grows.heap, congrArg change grows.frames, grows.sink⟩

end GrowsTo

/-- A name keeps its meaning when the machine gains cells. -/
theorem Means.mono
    {before after : Machine}
    {name : String}
    {value : Value}
    (means : before.Means name value)
    (grows : before.GrowsTo after) :
    after.Means name value := by
  obtain ⟨cell, bound, holds⟩ := means
  exact ⟨cell, by rw [grows.frames, bound], holds.mono grows.heap⟩

end Machine

/-! ## Enough fuel -/

/-- What holds of all large numbers but for one unit holds of all large numbers. -/
theorem eventually_succ
    {holds : Nat → Prop}
    (eventually : ∀ᶠ fuel in Filter.atTop, holds (fuel + 1)) :
    ∀ᶠ fuel in Filter.atTop, holds fuel := by
  rw [← Filter.map_add_atTop_eq_nat 1]
  exact eventually

namespace Evaluation

/-- More fuel does not change how an evaluation has ended. -/
theorem evaluate_of_le
    {limits : Limits}
    {fuel more : Nat}
    {node : Node}
    {machine : Machine}
    (enough : fuel ≤ more)
    (finished : evaluate limits fuel node machine ≠ .unfinished) :
    evaluate limits more node machine = evaluate limits fuel node machine := by
  have inStep :=
    ((Pairing.looser.lawful (.refl limits)).evaluation enough (.inl trivial) node).runs
      (Pairing.looser.paired_iff.mpr (Eq.refl machine))
  rcases inStep.of_looser with same | unfinished | ⟨limit, _, isLimit, _, notLimit, _⟩
  · exact same
  · exact absurd unfinished finished
  · exact absurd isLimit notLimit

/-- An evaluation that has ended has ended as it does with enough fuel. -/
theorem eq_of_eventually
    {limits : Limits}
    {fuel : Nat}
    {node : Node}
    {machine : Machine}
    {ending : Ending Cell}
    (eventually : ∀ᶠ fuel in Filter.atTop, evaluate limits fuel node machine = ending)
    (finished : evaluate limits fuel node machine ≠ .unfinished) :
    evaluate limits fuel node machine = ending := by
  obtain ⟨enough, same⟩ := Filter.eventually_atTop.mp eventually
  rw [← evaluate_of_le (Nat.le_max_right enough fuel) finished]
  exact same _ (Nat.le_max_left enough fuel)

/-! ## What nodes come to -/

/--
With enough fuel, a node ends in some way with a cell that holds a value, and the
machine has gained cells at most; and so it does on any machine that has gained cells.
-/
def ComesTo
    (limits : Limits)
    (way : Cell → Machine → Ending Cell)
    (machine : Machine)
    (node : Node)
    (value : Value) : Prop :=
  ∀ grown, machine.GrowsTo grown →
    ∃ cell after,
      (∀ᶠ fuel in Filter.atTop, evaluate limits fuel node grown = way cell after) ∧
        grown.GrowsTo after ∧
        after.heap.Holds cell value

/-- A node has a value. -/
abbrev Denotes (limits : Limits) : Machine → Node → Value → Prop :=
  ComesTo limits .done

/-- A node is left by a return signal that carries a value. -/
abbrev Returns (limits : Limits) : Machine → Node → Value → Prop :=
  ComesTo limits fun cell after => .left (.returning cell) after

section

variable {limits : Limits} {machine grown : Machine} {value other outcome : Value}
variable {way : Cell → Machine → Ending Cell} {node left right : Node} {word : String}

/-- However much fuel it has had, a node that has come to its end has come to its value. -/
theorem Denotes.of_done
    {fuel : Nat}
    {cell : Cell}
    {after : Machine}
    (denotes : Denotes limits machine node value)
    (ended : evaluate limits fuel node machine = .done cell after) :
    machine.GrowsTo after ∧ after.heap.Holds cell value := by
  obtain ⟨result, final, ends, grows, holds⟩ := denotes machine (.refl machine)
  have finished : evaluate limits fuel node machine ≠ .unfinished := by rw [ended]; nofun
  cases ended.symm.trans (eq_of_eventually ends finished)
  exact ⟨grows, holds⟩

theorem denotes_number
    (limits : Limits)
    (machine : Machine)
    (number : Int64) :
    Denotes limits machine (.leaf (.number number)) (.integer number) := by
  intro grown _
  refine ⟨_, _, eventually_succ (.of_forall fun _ => rfl), .allocate grown (.integer number), ?_⟩
  exact Heap.holds_allocate grown.heap (.integer number)

/-- A name has the value of the cell that it means. -/
theorem denotes_word
    (named : word ≠ "none")
    (noFunction : value.isFunction = false)
    (means : machine.Means word value) :
    Denotes limits machine (.leaf (.word word)) value := by
  intro grown grows
  obtain ⟨cell, bound, holds⟩ := means.mono grows
  refine ⟨cell, grown, eventually_succ (.of_forall fun _ => ?_), .refl grown, holds⟩
  exact leafValue_of_bound named bound (by rw [holds.reads, noFunction])

/-- The first operand still has its value when the second has come to its own. -/
theorem eventually_operandPair
    (hasLeft : Denotes limits machine left value)
    (hasRight : Denotes limits machine right other)
    (grows : machine.GrowsTo grown) :
    ∃ leftCell rightCell after,
      (∀ᶠ fuel in Filter.atTop,
        operandPair (evaluate limits fuel) [left, right] grown =
          .done (leftCell, rightCell) after) ∧
        grown.GrowsTo after ∧
        after.heap.Holds leftCell value ∧
        after.heap.Holds rightCell other := by
  obtain ⟨leftCell, between, leftEnds, toBetween, leftHolds⟩ := hasLeft grown grows
  obtain ⟨rightCell, after, rightEnds, toAfter, rightHolds⟩ :=
    hasRight between (grows.trans toBetween)
  refine ⟨leftCell, rightCell, after, ?_, toBetween.trans toAfter,
    leftHolds.mono toAfter.heap, rightHolds⟩
  filter_upwards [leftEnds, rightEnds] with fuel leftEnded rightEnded
  exact (Action.bind_of_done leftEnded).trans (Action.bind_of_done rightEnded)

/-- An operator of arithmetic looks at the values of its operands, not at their cells. -/
theorem denotes_arithmetic
    {operator : Arithmetic}
    (meaning : HeadWord.ofWord word = .arithmetic operator)
    (hasLeft : Denotes limits machine left value)
    (hasRight : Denotes limits machine right other)
    (result : ∀ heap,
      operator.onScalars (Scalar.ofValue heap value) (Scalar.ofValue heap other) = outcome) :
    Denotes limits machine (.form word [left, right]) outcome := by
  intro grown grows
  obtain ⟨leftCell, rightCell, after, ends, toAfter, leftHolds, rightHolds⟩ :=
    eventually_operandPair hasLeft hasRight grows
  have isResult : operator.apply after.heap leftCell rightCell = outcome := by
    rw [Arithmetic.apply, leftHolds.reads, rightHolds.reads, result]
  refine ⟨_, _, eventually_succ ?_, toAfter.trans (.allocate after outcome),
    Heap.holds_allocate after.heap outcome⟩
  filter_upwards [ends] with fuel ended
  rw [evaluate_form, form, meaning, ← isResult]
  exact Action.bind_of_done ended

/-- A comparison of integers has a truth value. -/
theorem denotes_comparison
    {operator : Comparison}
    {number otherNumber : Int64}
    (meaning : HeadWord.ofWord word = .comparison operator)
    (hasLeft : Denotes limits machine left (.integer number))
    (hasRight : Denotes limits machine right (.integer otherNumber)) :
    Denotes limits machine (.form word [left, right])
      (.boolean (operator.relates number.toInt otherNumber.toInt)) := by
  intro grown grows
  obtain ⟨leftCell, rightCell, after, ends, toAfter, leftHolds, rightHolds⟩ :=
    eventually_operandPair hasLeft hasRight grows
  have isResult := operator.holds_integers leftHolds.reads rightHolds.reads
  refine ⟨_, _, eventually_succ ?_, toAfter.trans (.allocate after _),
    Heap.holds_allocate after.heap _⟩
  filter_upwards [ends] with fuel ended
  rw [evaluate_form, form, meaning, ← isResult]
  exact Action.bind_of_done ended

/-- A choice ends as the operand that it takes does. -/
theorem comesTo_choice
    {condition chosen otherwise : Node}
    (tested : Denotes limits machine condition value)
    (taken : ComesTo limits way machine (if value.isTruthy then chosen else otherwise) outcome) :
    ComesTo limits way machine (.form "if" [condition, chosen, otherwise]) outcome := by
  intro grown grows
  obtain ⟨cell, between, testEnds, toBetween, holds⟩ := tested grown grows
  obtain ⟨result, after, ends, toAfter, resultHolds⟩ := taken between (grows.trans toBetween)
  refine ⟨result, after, eventually_succ ?_, toBetween.trans toAfter, resultHolds⟩
  filter_upwards [testEnds, ends] with fuel testEnded ended
  refine (choice_of_done testEnded).trans ?_
  rw [holds.reads]
  cases truthy : value.isTruthy <;> simpa [truthy, operand, optional] using ended

/-- A return form carries the value of its operand. -/
theorem returns_return
    (has : Denotes limits machine node value) :
    Returns limits machine (.form "return" [node]) value := by
  intro grown grows
  obtain ⟨cell, after, ends, toAfter, holds⟩ := has grown grows
  refine ⟨cell, after, eventually_succ ?_, toAfter, holds⟩
  filter_upwards [ends] with fuel ended
  exact Action.bind_of_done ended

/-- A return signal leaves a sequence, whose frame is dropped. -/
theorem returns_sequence
    (isBlock : node.isBlock = true)
    (returns : Returns limits (machine.withFrames FrameStack.push) node value) :
    Returns limits machine (.block [node]) value := by
  intro grown grows
  obtain ⟨cell, after, ends, toAfter, holds⟩ := returns _ (grows.withFrames FrameStack.push)
  refine ⟨cell, { after with frames := grown.frames }, eventually_succ ?_,
    ⟨toAfter.heap, rfl, toAfter.sink⟩, holds⟩
  filter_upwards [ends] with fuel ended
  have isSequence : Node.isSequence [node] = true := by simp [isBlock]
  rw [evaluate, step, if_pos isSequence, sequence, Action.inFrame, allInOrder, bind_assoc,
    Action.bind_of_left ended]
  simp only [Ending.onMachine, Machine.withFrames, toAfter.frames, FrameStack.pop_push]

/-- A function form has a function as its value, and the body is not evaluated. -/
theorem denotes_function
    {parameters : List Node}
    {names : List String}
    (limits : Limits)
    (named : parameterNames parameters = .ok names)
    (machine : Machine)
    (body : Node) :
    Denotes limits machine (.form "fn" [.block parameters, body]) (.function names body) := by
  intro grown _
  refine ⟨_, _, eventually_succ (.of_forall fun fuel => ?_),
    .allocate grown (.function names body), Heap.holds_allocate grown.heap _⟩
  show functionValue [.block parameters, body] grown = _
  rw [functionValue, List.head?_cons, parametersOf, named]
  rfl

/--
A call of a function with one parameter has the value that the body returns, on a
machine with one more frame, in which the parameter means a cell with the argument.
-/
theorem denotes_call
    {parameter : String}
    {body : Node}
    (meaning : HeadWord.ofWord word = .name word)
    (callee : machine.Means word (.function [parameter] body))
    (argument : Denotes limits machine node value)
    (returns : ∀ caller cell,
      machine.GrowsTo caller →
      caller.heap.Holds cell value →
      Returns limits (caller.withFrames fun frames => frames.push.declare parameter cell) body
        outcome) :
    Denotes limits machine (.form word [node]) outcome := by
  intro grown grows
  obtain ⟨function, bound, callable⟩ := callee.mono grows
  obtain ⟨cell, caller, argumentEnds, toCaller, holds⟩ := argument grown grows
  obtain ⟨result, after, ends, toAfter, resultHolds⟩ :=
    returns caller cell (grows.trans toCaller) holds _ (.refl _)
  refine ⟨result, { after with frames := caller.frames }, eventually_succ ?_,
    toCaller.trans ⟨toAfter.heap, rfl, toAfter.sink⟩, resultHolds⟩
  filter_upwards [argumentEnds, ends] with fuel argumentEnded ended
  have known :
      actuals (evaluate limits fuel) [parameter] [node] grown =
        .done [(parameter, cell)] caller :=
    Action.bind_of_done argumentEnded
  rw [evaluate_form, form, meaning]
  refine (nameForm_of_function bound callable.reads).trans ?_
  rw [call_of_entered body known rfl rfl]
  exact congrArg (endOfCall caller.frames) ended

/-! ## Declarations and assignments -/

/-- A declaration binds its name to the cell that its operand comes to. -/
theorem eventually_declaration
    (has : Denotes limits machine node value)
    (name : String) :
    ∃ cell absent after,
      (∀ᶠ fuel in Filter.atTop,
        evaluate limits fuel (.form "let" [.leaf (.word name), node]) machine =
          .done absent (after.withFrames fun frames => frames.declare name cell)) ∧
        machine.GrowsTo after ∧
        after.heap.Holds cell value := by
  obtain ⟨cell, between, ends, toBetween, holds⟩ := has machine (.refl machine)
  have toAfter := Machine.GrowsTo.allocate between .none
  refine ⟨cell, (between.heap.allocate .none).1, _, eventually_succ ?_,
    toBetween.trans toAfter, holds.mono toAfter.heap⟩
  filter_upwards [ends] with fuel ended
  exact Action.bind_of_done ended

/-- An assignment to a name overwrites the cell that it means, and the names mean the same cells. -/
theorem eventually_assignment
    {name : String}
    {cell : Cell}
    (has : Denotes limits machine node value)
    (bound : machine.frames.lookup? name = some cell)
    (isCell : machine.heap.Has cell) :
    ∃ absent after,
      (∀ᶠ fuel in Filter.atTop,
        evaluate limits fuel (.form "set" [.leaf (.word name), node]) machine =
          .done absent after) ∧
        after.frames = machine.frames ∧
        after.sink = machine.sink ∧
        after.heap.Holds cell value := by
  obtain ⟨source, between, ends, toBetween, holds⟩ := has machine (.refl machine)
  have still : between.heap.Has cell := Nat.lt_of_lt_of_le isCell toBetween.heap.size
  let heap := between.heap.assign cell source
  have isWritten : heap.Holds cell value := by
    show (between.heap.write cell (between.heap.read source)).Holds cell value
    rw [holds.reads]
    exact Heap.holds_write still value
  refine ⟨(heap.allocate .none).1, { between with heap := (heap.allocate .none).2 },
    eventually_succ ?_, toBetween.frames, toBetween.sink, isWritten.mono (.allocate heap .none)⟩
  filter_upwards [ends] with fuel ended
  have assigned :
      assignTo (evaluate limits fuel) [.leaf (.word name), node] (.name name) machine =
        .done () { between with heap } := by
    rw [assignTo, Action.bind_of_done (lookupDeclared_of_bound bound)]
    exact Action.bind_of_done ended
  exact Action.bind_of_done assigned

end

end Evaluation

/-! ## Programs -/

namespace Program

open Evaluation

variable {limits : Limits} {fuel : Nat} {machine after : Machine}

/-- A program ends as its members do, like the body of a function. -/
theorem inScope_body
    (limits : Limits)
    (fuel : Nat)
    (members : List Node)
    (machine : Machine) :
    Action.inScope (body limits fuel members) machine =
      endOfCall machine.frames
        (lastOf (evaluate limits fuel) (machine.heap.allocate .none).1 members
          (opened machine)) := by
  have disciplined : (body limits fuel members).Meets frameDiscipline :=
    frameDiscipline.lawful.programBody limits fuel fun _ _ => trivial
  have inside :
      body limits fuel members (machine.withFrames FrameStack.push) =
        Action.catchReturn
          (lastOf (evaluate limits fuel) (machine.heap.allocate .none).1 members)
          (opened machine) := rfl
  have dropped {after : Machine}
      (ended : (lastOf (evaluate limits fuel) (machine.heap.allocate .none).1 members
        (opened machine)).machine? = some after) :
      after.withFrames FrameStack.pop = { after with frames := machine.frames } := by
    rw [← Action.machine?_catchReturn, ← inside] at ended
    obtain ⟨_, kept⟩ :=
      (disciplined (machine.withFrames FrameStack.push) trivial).of_machine? ended
    rw [Machine.withFrames, kept.relates.pop_eq]
  rw [Action.inScope_eq_inFrame disciplined, Action.inFrame, inside, Action.catchReturn]
  cases ended : lastOf (evaluate limits fuel) (machine.heap.allocate .none).1 members
      (opened machine) with
  | done cell after => exact congrArg (Ending.done cell) (dropped (congrArg _ ended))
  | left exit after =>
      cases exit with
      | returning cell => exact congrArg (Ending.done cell) (dropped (congrArg _ ended))
      | failing fault => exact congrArg (Ending.left _) (dropped (congrArg _ ended))
  | unfinished => rfl

/-- A program ends with the value of its last member and leaves the frames as they were. -/
theorem execute_of_done
    {cell : Cell}
    (members : List Node)
    (ended : lastOf (evaluate limits fuel) (machine.heap.allocate .none).1 members
      (opened machine) = .done cell after) :
    execute limits fuel members machine =
      .done (after.heap.read cell) { after with frames := machine.frames } := by
  have inScope := inScope_body limits fuel members machine
  rw [ended] at inScope
  exact Action.bind_of_done inScope

/-- A program fails as its members do and leaves the frames as they were. -/
theorem execute_of_failing
    {fault : Fault}
    (members : List Node)
    (failed : lastOf (evaluate limits fuel) (machine.heap.allocate .none).1 members
      (opened machine) = .left (.failing fault) after) :
    execute limits fuel members machine =
      .left (.failing fault) { after with frames := machine.frames } := by
  have inScope := inScope_body limits fuel members machine
  rw [failed] at inScope
  exact Action.bind_of_left inScope

/-- With enough fuel, running a text ends in some way. -/
def RunsTo
    (limits : Limits)
    (source : String)
    (machine : Machine)
    (ending : Ending Value) : Prop :=
  ∀ᶠ fuel in Filter.atTop, run limits fuel source machine = ending

end Program

end CellScript
