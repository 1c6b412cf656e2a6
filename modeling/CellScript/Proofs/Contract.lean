import CellScript.Evaluation

namespace CellScript

/-!
# Contracts

A contract says what computations keep: an invariant of machines, and a relation
between the machine at the start, the exit by which the computation is left
early, if it is, and the machine it leaves behind.  A computation that uses up its
fuel leaves nothing behind and meets every contract.

A contract that the few primitive steps meet is met by every computation that is
put together from them.  This module has the rules for putting together.
-/

/-- An invariant of machines, and a relation between the start and the end of a computation. -/
structure Contract where
  /-- What holds of a machine before and after every computation. -/
  invariant : Machine → Prop
  /-- What holds between a start, an exit and an end. -/
  relates : Machine → Option Exit → Machine → Prop

/-- An exit and an end are right for a start. -/
structure Contract.Accepts
    (contract : Contract)
    (before : Machine)
    (exit : Option Exit)
    (after : Machine) : Prop where
  invariant : contract.invariant after
  relates : contract.relates before exit after

/-- An ending is right for the machine on which the computation started. -/
def Ending.Meets {α : Type} (contract : Contract) (before : Machine) : Ending α → Prop
  | .done _ after => contract.Accepts before none after
  | .left exit after => contract.Accepts before (some exit) after
  | .unfinished => True

/-- The machine that a right ending leaves behind is accepted with some exit. -/
theorem Ending.Meets.of_machine?
    {α : Type}
    {contract : Contract}
    {before after : Machine}
    {ending : Ending α}
    (meets : ending.Meets contract before)
    (ended : ending.machine? = some after) :
    ∃ exit, contract.Accepts before exit after := by
  cases ending with
  | done value between =>
      cases ended
      exact ⟨none, meets⟩
  | left exit between =>
      cases ended
      exact ⟨some exit, meets⟩
  | unfinished => cases ended

/-- A computation keeps a contract when it starts on a given machine. -/
def Action.MeetsAt
    {α : Type}
    (contract : Contract)
    (machine : Machine)
    (action : Action α) : Prop :=
  (action machine).Meets contract machine

/-- A computation keeps a contract wherever the invariant holds. -/
def Action.Meets {α : Type} (contract : Contract) (action : Action α) : Prop :=
  ∀ machine, contract.invariant machine → action.MeetsAt contract machine

/-- Printing a line keeps a contract if it does so whether or not the line fits into the sink. -/
theorem Action.printLine_meetsAt
    {contract : Contract}
    {machine : Machine}
    {line : String}
    (fits : contract.Accepts machine none
      { machine with sink := machine.sink.take (Sink.lineBytes line) })
    (full : contract.Accepts machine (some (.failing Fault.sinkFull))
      { machine with sink := machine.sink.take (Sink.lineBytes line) }) :
    (Action.printLine line).MeetsAt contract machine := by
  simp only [Action.MeetsAt, Action.printLine]
  split
  · exact fits
  · exact full

/-- Faults that a well-formed script can end in while it runs. -/
def Fault.isOfRun : Fault → Bool
  | .undefinedVariable _ => true
  | .invalidAssignmentTarget _ => true
  | .invalidParameter _ => true
  | .unrecognizedExpression _ => true
  | .tooManyIterations _ => true
  | .outputFailed _ => true
  | _ => false

/-- A form whose head is a word. -/
def Node.form (head : String) (operands : List Node) : Node :=
  .block (.leaf (.word head) :: operands)

/--
A contract that evaluation of the nodes satisfying `good` can keep.  The steps
that a script does not take freely are asked for only where a form takes them:
returning, assigning, making a function.
-/
structure Contract.Lawful (contract : Contract) (good : Node → Prop) : Prop where
  /-- Doing nothing is allowed. -/
  stays : ∀ {machine},
    contract.invariant machine → contract.relates machine none machine
  /-- What follows an ordinary end may be joined to it. -/
  joins : ∀ {before between after exit},
    contract.relates before none between →
    contract.relates between exit after →
    contract.relates before exit after
  /-- A fault is raised without further ado. -/
  fails : ∀ {machine fault},
    Fault.isOfRun fault = true →
    contract.invariant machine →
    contract.relates machine (some (.failing fault)) machine
  /-- A return signal is raised by a return form. -/
  returns : ∀ {machine operands cell},
    good (.form "return" operands) →
    contract.invariant machine →
    contract.relates machine (some (.returning cell)) machine
  /-- A return signal that is taken counts as an ordinary end. -/
  takes : ∀ {before cell after},
    contract.relates before (some (.returning cell)) after →
    contract.relates before none after
  /-- A value that is no function gets a cell. -/
  allocates : ∀ {machine value},
    value.isFunction = false →
    contract.invariant machine →
    contract.Accepts machine none { machine with heap := (machine.heap.allocate value).2 }
  /-- The value of a function form gets a cell. -/
  allocatesFunction : ∀ {machine parameters operands},
    good (.form "fn" operands) →
    contract.invariant machine →
    contract.Accepts machine none
      { machine with
        heap :=
          (machine.heap.allocate
            (.function parameters (operands[1]?.getD (.block [])))).2 }
  /-- An assignment copies the value of a cell. -/
  assigns : ∀ {machine operands target source},
    good (.form "set" operands) →
    contract.invariant machine →
    contract.Accepts machine none
      { machine with heap := machine.heap.assign target source }
  /-- An assignment overwrites a cell with a value spliced from the one it holds. -/
  splices : ∀ {machine operands owner position source},
    good (.form "set" operands) →
    contract.invariant machine →
    contract.Accepts machine none
      { machine with
        heap :=
          machine.heap.write owner
            (Evaluation.spliced machine.heap (machine.heap.read owner) position source) }
  /-- A name is bound in the newest frame. -/
  declares : ∀ {machine name cell},
    contract.invariant machine →
    contract.Accepts machine none
      (machine.withFrames fun frames => frames.declare name cell)
  /-- A line is printed. -/
  prints : ∀ {machine} line,
    contract.invariant machine →
    (Action.printLine line).MeetsAt contract machine
  /-- A new frame does no harm. -/
  pushes : ∀ {machine},
    contract.invariant machine →
    contract.invariant (machine.withFrames FrameStack.push)
  /-- Dropping the new frame leads back. -/
  pops : ∀ {before exit after},
    contract.invariant before →
    contract.Accepts (before.withFrames FrameStack.push) exit after →
    contract.Accepts before exit (after.withFrames FrameStack.pop)
  /-- The members of a sequence are evaluated. -/
  goodMembers : ∀ {members},
    Node.isSequence members = true →
    good (.block members) →
    ∀ member ∈ members, good member
  /-- The operands of a form are evaluated, unless it makes a function. -/
  goodOperands : ∀ {word operands},
    word ≠ "fn" →
    good (.form word operands) →
    ∀ operand ∈ operands, good operand
  /-- The body of a function is evaluated when the function is called. -/
  goodBody : ∀ {machine cell parameters body},
    contract.invariant machine →
    machine.heap.read cell = .function parameters body →
    good body

namespace Contract.Lawful

variable {contract : Contract} {good : Node → Prop} {α β : Type}

/-- Doing nothing is accepted. -/
theorem accepts_self
    (lawful : contract.Lawful good)
    {machine : Machine}
    (holds : contract.invariant machine) :
    contract.Accepts machine none machine :=
  ⟨holds, lawful.stays holds⟩

/-- What follows an accepted ordinary end may be joined to it. -/
theorem meets_of_accepts
    (lawful : contract.Lawful good)
    {before between : Machine}
    {ending : Ending α}
    (first : contract.Accepts before none between)
    (second : ending.Meets contract between) :
    ending.Meets contract before := by
  cases ending with
  | done value after =>
      exact ⟨second.invariant, lawful.joins first.relates second.relates⟩
  | left exit after =>
      exact ⟨second.invariant, lawful.joins first.relates second.relates⟩
  | unfinished => trivial

/-- A computation that ends at once meets every lawful contract. -/
theorem pure
    (lawful : contract.Lawful good)
    (value : α) :
    Action.Meets contract (Pure.pure value) :=
  fun _ holds => lawful.accepts_self holds

/-- Computations in a row meet a contract that each of them meets. -/
theorem bind
    (lawful : contract.Lawful good)
    {action : Action α}
    {next : α → Action β}
    (first : action.Meets contract)
    (second : ∀ value, (next value).Meets contract) :
    Action.Meets contract (action >>= next) := by
  intro machine holds
  have accepted : (action machine).Meets contract machine := first machine holds
  rw [Action.MeetsAt, Action.bind_apply]
  cases ended : action machine with
  | done value after =>
      rw [ended] at accepted
      exact lawful.meets_of_accepts accepted
        (second value after accepted.invariant)
  | left exit after =>
      rw [ended] at accepted
      exact accepted
  | unfinished => trivial

theorem allocate
    (lawful : contract.Lawful good)
    {value : Value}
    (plain : value.isFunction = false) :
    Action.Meets contract (Action.allocate value) :=
  fun _ holds => lawful.allocates plain holds

theorem nothing
    (lawful : contract.Lawful good) :
    Action.Meets contract Action.nothing :=
  lawful.allocate rfl

theorem declareAll
    (lawful : contract.Lawful good)
    (bindings : List (String × Cell)) :
    Action.Meets contract (Action.declareAll bindings) := by
  induction bindings with
  | nil => exact lawful.pure ()
  | cons binding rest inductionHypothesis =>
      exact lawful.bind
        (fun _ holds => lawful.declares holds)
        (fun _ => inductionHypothesis)

/-- Catching a return signal leaves the machine as the signal has left it. -/
theorem catchReturn
    (lawful : contract.Lawful good)
    {action : Action Cell}
    (inner : action.Meets contract) :
    Action.Meets contract (Action.catchReturn action) := by
  intro machine holds
  have accepted : (action machine).Meets contract machine := inner machine holds
  unfold Action.MeetsAt Action.catchReturn
  cases ended : action machine with
  | done value after =>
      rw [ended] at accepted
      exact accepted
  | left exit after =>
      rw [ended] at accepted
      cases exit with
      | returning cell =>
          exact ⟨accepted.invariant, lawful.takes accepted.relates⟩
      | failing fault => exact accepted
  | unfinished => trivial

/-- What meets the contract inside a new frame does so around it. -/
theorem inFrame
    (lawful : contract.Lawful good)
    {action : Action α}
    (inner : action.Meets contract) :
    Action.Meets contract (Action.inFrame action) := by
  intro machine holds
  have accepted :
      (action (machine.withFrames FrameStack.push)).Meets contract
        (machine.withFrames FrameStack.push) :=
    inner _ (lawful.pushes holds)
  unfold Action.MeetsAt Action.inFrame
  cases ended : action (machine.withFrames FrameStack.push) with
  | done value after =>
      rw [ended] at accepted
      exact lawful.pops holds accepted
  | left exit after =>
      rw [ended] at accepted
      exact lawful.pops holds accepted
  | unfinished => trivial

end Contract.Lawful

end CellScript
