import CellScript.Numeral.Decimal

namespace CellScript

/-!
# Faults

What can go wrong with a script, with the wording that reports it.  A fault is
fatal when the text or the configuration itself is broken, so that running again
cannot help, and recoverable when a well-formed script failed while it ran.
-/

/-- A place in source text; lines and columns count from one, columns in characters. -/
structure Position where
  line : Nat
  column : Nat
  deriving Repr, DecidableEq

/-- What can go wrong. -/
inductive Fault where
  /-- The text ended inside the construct that starts at a position. -/
  | malformedSource (position : Position) (problem : String)
  /-- A closing bracket has no opening one. -/
  | structuralMismatch (position : Position) (bracket : Char)
  /-- A name to be assigned is bound nowhere. -/
  | undefinedVariable (name : String)
  /-- Something other than a name or an index form is to be bound or assigned. -/
  | invalidAssignmentTarget (target : String)
  /-- A parameter is not a word. -/
  | invalidParameter (parameter : String)
  /-- The head of a form means nothing. -/
  | unrecognizedExpression (expression : String)
  /-- A loop went on after as many rounds as allowed. -/
  | tooManyIterations (limit : Nat)
  /-- The sink did not take everything printed. -/
  | outputFailed (reason : String)
  /-- A configuration could not be read. -/
  | invalidConfig (reason : String)
  /-- A run in the background did not complete. -/
  | hostTaskFailed (reason : String)
  deriving Repr, DecidableEq

/-- How bad a fault is. -/
inductive Severity where
  /-- The text or the configuration is broken. -/
  | fatal
  /-- The script ran and failed. -/
  | recoverable
  deriving Repr, DecidableEq

/-- The name of a severity. -/
def Severity.name : Severity → String
  | .fatal => "Fatal"
  | .recoverable => "Recoverable"

namespace Fault

/-- The text ended inside the quotation opened at a position. -/
def unterminatedText (position : Position) : Fault :=
  .malformedSource position "unterminated string literal"

/-- The text ended inside the block opened by a bracket. -/
def unclosedBlock (position : Position) (bracket : String) : Fault :=
  .malformedSource position ("unclosed '" ++ bracket ++ "'")

/-- The sink had no room for everything printed. -/
def sinkFull : Fault :=
  .outputFailed "sink full"

/-- The name of a kind of fault. -/
def kind : Fault → String
  | .malformedSource .. => "MalformedSource"
  | .structuralMismatch .. => "StructuralMismatch"
  | .undefinedVariable .. => "UndefinedVariable"
  | .invalidAssignmentTarget .. => "InvalidAssignmentTarget"
  | .invalidParameter .. => "InvalidParameter"
  | .unrecognizedExpression .. => "UnrecognizedExpression"
  | .tooManyIterations .. => "TooManyIterations"
  | .outputFailed .. => "OutputFailed"
  | .invalidConfig .. => "InvalidConfig"
  | .hostTaskFailed .. => "HostTaskFailed"

/-- A number as it stands in a message. -/
def shown (value : Nat) : String :=
  String.ofList (Decimal.ofNat value)

/-- A position as it stands in a message, in pieces. -/
def place (position : Position) : List String :=
  ["line ", shown position.line, ", column ", shown position.column]

/-- The wording of a fault, in pieces. -/
def wording : Fault → List String
  | .malformedSource position problem =>
      "Malformed source at " :: (place position ++ [": ", problem])
  | .structuralMismatch position bracket =>
      "Unmatched '" :: String.ofList [bracket] :: "' at " :: place position
  | .undefinedVariable name => ["Variable ", name, " does not exist"]
  | .invalidAssignmentTarget target => ["Invalid assignment target: ", target]
  | .invalidParameter parameter => ["Invalid function parameter: ", parameter]
  | .unrecognizedExpression expression => ["Can't recognize this expression: ", expression]
  | .tooManyIterations limit => ["Too many iterations (limit: ", shown limit, ")"]
  | .outputFailed reason => ["Output error: ", reason]
  | .invalidConfig reason => ["Invalid configuration: ", reason]
  | .hostTaskFailed reason => ["Host task failed: ", reason]

/-- The message that reports a fault. -/
def message (fault : Fault) : String :=
  String.join fault.wording

/-- The severity of a fault. -/
def severity : Fault → Severity
  | .malformedSource .. => .fatal
  | .structuralMismatch .. => .fatal
  | .invalidConfig .. => .fatal
  | _ => .recoverable

end Fault

end CellScript
