import CellScript.Program
import CellScript.Snapshot.Encoding

namespace CellScript

/-!
# Outcomes

A script can be run on a machine of its own, apart from everything else.  What
comes back is free of cells: a snapshot of the result and the lines printed.
-/

/-- What a script that ran apart leaves behind. -/
structure Outcome where
  value : Snapshot
  output : List String
  deriving Repr

namespace Outcome

/-- The lines that a sink took. -/
def linesOf (sink : Sink) : List String :=
  (Text.lines sink.text.toList).map String.ofList

/-- The outcome of a run, or the fault that ended it, unless the run is unfinished. -/
def ofEnding? : Ending Value → Option (Except Fault Outcome)
  | .done value machine =>
      some (.ok { value := value.snapshot machine.heap, output := linesOf machine.sink })
  | .left (.failing fault) _ => some (.error fault)
  | .left (.returning _) _ => none
  | .unfinished => none

/-- Run a script on a new machine. -/
def ofSource? (limits : Limits) (fuel : Nat) (source : String) :
    Option (Except Fault Outcome) :=
  ofEnding? (Program.run limits fuel source (Machine.start none))

/-- The JSON form of an outcome. -/
def toJson (outcome : Outcome) : Json :=
  .object
    [Json.field "value" outcome.value.toJson,
     Json.field "output" (.array (outcome.output.map Json.ofString))]

/-- The outcome with a value and lines of output. -/
def ofParts? (value output : Json) : Option Outcome := do
  let value ← Snapshot.ofJson? (Snapshot.nestingLimit - 1) false value
  let output ← output.toStrings?
  return { value, output }

/-- Read an outcome; neither field may be repeated, and other fields are ignored. -/
def ofJson? : Json → Option Outcome
  | .array [value, output] => ofParts? value output
  | .object fields =>
      if Json.named fields then do
        let value ← Json.onlyOf? "value" fields
        let output ← Json.onlyOf? "output" fields
        ofParts? value output
      else
        none
  | _ => none

/-- The JSON text of an outcome. -/
def toText (outcome : Outcome) : String :=
  outcome.toJson.toText

/-- Read an outcome from JSON text. -/
def ofText? (text : String) : Option Outcome :=
  (Json.ofText? text).bind ofJson?

end Outcome

end CellScript
