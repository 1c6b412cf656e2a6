import CellScript.Json.Reader
import CellScript.Text.Blank

namespace CellScript

/-!
# Limits

The language sets no limits, but whoever runs a script may: on the rounds of any
single loop.  Limits are given as a JSON object, as an array of its fields, or as
the bare number in an environment variable.
-/

/-- The limits of a run. -/
structure Limits where
  /-- The number of rounds that one loop may make; without one there is no limit. -/
  maxIterations : Option Nat
  deriving Repr, DecidableEq

namespace Limits

/-- No limits. -/
def unlimited : Limits :=
  { maxIterations := none }

/-- The JSON name of the limit on rounds. -/
def maxIterationsName : String := "max_iterations"

/-- Read a limit: nothing, or an integer literal of at most 64 bits. -/
def limitOfJson? : Json → Option (Option Nat)
  | .null => some none
  | .integer (.ofNat value) =>
      if value ≤ Decimal.largestWord then some (some value) else none
  | _ => none

/-- Read limits; an object has no field but the limit on rounds, and that at most once. -/
def ofJson? : Json → Option Limits
  | .object [] => some unlimited
  | .object [(name, value)] =>
      if name = some maxIterationsName then
        (limitOfJson? value).map fun maxIterations => { maxIterations }
      else
        none
  | .array [] => some unlimited
  | .array [value] => (limitOfJson? value).map fun maxIterations => { maxIterations }
  | _ => none

/-- Read limits from JSON text. -/
def ofText? (text : String) : Option Limits :=
  (Json.ofText? text).bind ofJson?

/-- The limits given by an environment variable; a value that is no number gives none. -/
def ofEnvironment (value : Option String) : Limits :=
  { maxIterations := value.bind fun text => Decimal.readWord? (Text.trim text.toList) }

end Limits

end CellScript
