import CellScript.Evaluation
import CellScript.Tree.Builder

namespace CellScript.Program

/-!
# Programs

A program is the members of the outermost block of a script.  It runs in a frame
of its own, which is dropped again, so that one run leaves no bindings to the
next.  Its result is what its last member evaluates to, or the value of a return
signal that no call took.
-/

/-- The cell that the members of a program come to; a return signal ends them. -/
def body (limits : Limits) (fuel : Nat) (members : List Node) : Action Cell :=
  Action.catchReturn do
    let absent ← Action.nothing
    Evaluation.lastOf (evaluate limits fuel) absent members

/-- Run a program; the result is the value that its final cell then holds. -/
def execute (limits : Limits) (fuel : Nat) (members : List Node) : Action Value := do
  let cell ← Action.inScope (body limits fuel members)
  Action.contents cell

/-- Read and run a script; a script that cannot be read changes nothing. -/
def run (limits : Limits) (fuel : Nat) (source : String) : Action Value :=
  match Node.ofSource source with
  | .error fault => Action.fail fault
  | .ok members => execute limits fuel members

end CellScript.Program
