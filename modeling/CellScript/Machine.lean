import CellScript.Fault
import CellScript.Frames
import CellScript.Heap.Display
import CellScript.Sink
import CellScript.Text.Splice

namespace CellScript

/-!
# Machines

A machine is everything a running script can change: the heap, the frames and
the sink it prints to.  An action is a computation on a machine.  It ends with a
value, or it is left early by a return signal or a fault, and keeps in either
case what it has done to the machine; or it is still unfinished when its fuel is
used up.
-/

/-- The state of a running script. -/
structure Machine where
  heap : Heap
  frames : FrameStack
  sink : Sink

/-- Why a computation is left before its end. -/
inductive Exit where
  /-- A function, or the script, returns the value in a cell. -/
  | returning (cell : Cell)
  /-- Something went wrong. -/
  | failing (fault : Fault)
  deriving Repr, DecidableEq

/-- How a computation ends. -/
inductive Ending (α : Type) where
  /-- It came to its end. -/
  | done (value : α) (machine : Machine)
  /-- It was left early. -/
  | left (exit : Exit) (machine : Machine)
  /-- It used up its fuel. -/
  | unfinished

/-- A computation on a machine. -/
def Action (α : Type) : Type :=
  Machine → Ending α

namespace Machine

/-- A machine without cells and bindings, whose sink has some room. -/
def start (room : Option Nat) : Machine :=
  { heap := Heap.empty, frames := FrameStack.global, sink := Sink.start room }

/-- Change the frames of a machine. -/
def withFrames (machine : Machine) (change : FrameStack → FrameStack) : Machine :=
  { machine with frames := change machine.frames }

end Machine

namespace Ending

/-- The machine that a computation leaves behind. -/
def machine? {α : Type} : Ending α → Option Machine
  | .done _ machine => some machine
  | .left _ machine => some machine
  | .unfinished => none

/-- The value that a computation comes to at its end. -/
def value? {α : Type} : Ending α → Option α
  | .done value _ => some value
  | _ => none

/-- Change the machine that a computation leaves behind. -/
def onMachine {α : Type} (ending : Ending α) (change : Machine → Machine) : Ending α :=
  match ending with
  | .done value machine => .done value (change machine)
  | .left exit machine => .left exit (change machine)
  | .unfinished => .unfinished

/-- Changing the machine at the end of a computation changes the one it leaves behind. -/
@[simp]
theorem machine?_onMachine
    {α : Type}
    (ending : Ending α)
    (change : Machine → Machine) :
    (ending.onMachine change).machine? = ending.machine?.map change := by
  cases ending <;> rfl

end Ending

namespace Action

/-- End with a value and change nothing. -/
@[inline]
protected def pure {α : Type} (value : α) : Action α :=
  fun machine => .done value machine

/-- Go on with the value of a computation, unless it is left early or unfinished. -/
@[inline]
protected def bind {α β : Type} (action : Action α) (next : α → Action β) : Action β :=
  fun machine =>
    match action machine with
    | .done value machine => next value machine
    | .left exit machine => .left exit machine
    | .unfinished => .unfinished

@[always_inline]
instance : Monad Action where
  pure := Action.pure
  bind := Action.bind

/-- Ending with a value leaves the machine as it is. -/
@[simp]
theorem pure_apply
    {α : Type}
    (value : α)
    (machine : Machine) :
    (pure value : Action α) machine = .done value machine := rfl

/-- What follows a computation sees its value and the machine it leaves behind. -/
@[simp]
theorem bind_apply
    {α β : Type}
    (action : Action α)
    (next : α → Action β)
    (machine : Machine) :
    (action >>= next) machine =
      match action machine with
      | .done value machine => next value machine
      | .left exit machine => .left exit machine
      | .unfinished => .unfinished := rfl

/-- Computations follow each other as in any lawful monad. -/
instance : LawfulMonad Action :=
  LawfulMonad.mk' Action
    (fun action => by
      funext machine
      show (action >>= pure) machine = action machine
      rw [bind_apply]
      cases action machine <;> rfl)
    (fun _ _ => rfl)
    (fun action _ _ => by
      funext machine
      simp only [bind_apply]
      cases action machine <;> rfl)

/-- Use up all fuel. -/
def unfinished {α : Type} : Action α :=
  fun _ => .unfinished

/-- Fail. -/
def fail {α : Type} (fault : Fault) : Action α :=
  fun machine => .left (.failing fault) machine

/-- Return the value in a cell. -/
def giveBack {α : Type} (cell : Cell) : Action α :=
  fun machine => .left (.returning cell) machine

/-- Look something up in the machine. -/
@[inline]
def look {α : Type} (view : Machine → α) : Action α :=
  fun machine => .done (view machine) machine

/-- Make a cell for a value. -/
def allocate (value : Value) : Action Cell :=
  fun machine =>
    let (cell, heap) := machine.heap.allocate value
    .done cell { machine with heap }

/-- Make a cell for the absent value. -/
def nothing : Action Cell :=
  allocate .none

/-- The value in a cell. -/
def contents (cell : Cell) : Action Value :=
  look fun machine => machine.heap.read cell

/-- Overwrite the value in a cell. -/
def write (cell : Cell) (value : Value) : Action Unit :=
  fun machine => .done () { machine with heap := machine.heap.write cell value }

/-- Copy the value of one cell into another. -/
def assign (target source : Cell) : Action Unit :=
  fun machine => .done () { machine with heap := machine.heap.assign target source }

/-- The cell that a name means. -/
def lookup? (name : String) : Action (Option Cell) :=
  look fun machine => machine.frames.lookup? name

/-- Bind a name in the newest frame. -/
def declare (name : String) (cell : Cell) : Action Unit :=
  fun machine => .done () (machine.withFrames fun frames => frames.declare name cell)

/-- Bind names in the newest frame, one after the other. -/
def declareAll : List (String × Cell) → Action Unit
  | [] => Action.pure ()
  | (name, cell) :: rest => do
      declare name cell
      declareAll rest

/-- Print a line; what does not fit into the sink makes printing fail. -/
def printLine (line : String) : Action Unit :=
  fun machine =>
    let bytes := Sink.lineBytes line
    let printed := { machine with sink := machine.sink.take bytes }
    if machine.sink.fits bytes.size then
      .done () printed
    else
      .left (.failing Fault.sinkFull) printed

/-- Compute in a new frame and drop it again, however the computation ends. -/
def inFrame {α : Type} (action : Action α) : Action α :=
  fun machine =>
    (action (machine.withFrames FrameStack.push)).onMachine fun machine =>
      machine.withFrames FrameStack.pop

/-- Compute in a new frame and drop all frames above the old ones, however the computation ends. -/
def inScope {α : Type} (action : Action α) : Action α :=
  fun machine =>
    (action (machine.withFrames FrameStack.push)).onMachine fun after =>
      after.withFrames fun frames => frames.truncate machine.frames.depth

/-- Take the value of a return signal as the value of the computation it leaves. -/
def catchReturn (action : Action Cell) : Action Cell :=
  fun machine =>
    match action machine with
    | .left (.returning cell) machine => .done cell machine
    | ending => ending

end Action

end CellScript
