import CellScript.Evaluation.Assignment
import CellScript.Limits
import CellScript.Operator

namespace CellScript

/-!
# Evaluation

A leaf evaluates to a cell.  A sequence evaluates its members.  A form does what
its head says: a keyword or an operator has its own meaning, the name of a
function calls it, any other bound name stands for its cell, and a literal for
itself.  Evaluation takes fuel: one unit for each node inside another and one for
each round of a loop.  More fuel never changes how a finished evaluation ended.
-/

/-- The words that have a meaning of their own at the head of a form. -/
inductive Keyword where
  | declare
  | assign
  | function
  | choose
  | giveBack
  | loop
  | list
  | importPath
  | index
  | print
  deriving Repr, DecidableEq

/-- What a word at the head of a form stands for. -/
inductive HeadWord where
  | keyword (keyword : Keyword)
  | comparison (operator : Comparison)
  | arithmetic (operator : Arithmetic)
  | name (name : String)
  deriving Repr, DecidableEq

/-- The keyword that a word is. -/
def Keyword.ofWord? : String → Option Keyword
  | "let" => some .declare
  | "set" => some .assign
  | "fn" => some .function
  | "if" => some .choose
  | "return" => some .giveBack
  | "while" => some .loop
  | "list" => some .list
  | "import" => some .importPath
  | "index" => some .index
  | "print" => some .print
  | _ => none

/-- What a word at the head of a form stands for. -/
def HeadWord.ofWord (word : String) : HeadWord :=
  match Keyword.ofWord? word with
  | some meaning => .keyword meaning
  | none =>
      match Comparison.ofWord? word with
      | some operator => .comparison operator
      | none =>
          match Arithmetic.ofWord? word with
          | some operator => .arithmetic operator
          | none => .name word

namespace Evaluation

/-- The value of a leaf; functions are reached at the head of a form only. -/
def leafValue : Leaf → Action Cell
  | .text content => Action.allocate (.text content)
  | .number value => Action.allocate (.integer value)
  | .word name => do
      if name = "none" then
        Action.nothing
      else
        match ← Action.lookup? name with
        | none => Action.nothing
        | some cell =>
            if (← Action.contents cell).isFunction then
              Action.nothing
            else
              return cell

/-- The names of parameters, which have to be words. -/
def parameterNames : List Node → Except Fault (List String)
  | [] => .ok []
  | node :: rest =>
      match node.word? with
      | none => .error (.invalidParameter node.display)
      | some name => (parameterNames rest).map (name :: ·)

/-- The names of the parameters that the first operand of a function form lists. -/
def parametersOf : Option Node → Except Fault (List String)
  | none => .ok []
  | some (.block members) => parameterNames members
  | some node => .error (.invalidParameter node.display)

/-- The value of a function form; a lacking body is an empty block. -/
def functionValue (operands : List Node) : Action Cell :=
  match parametersOf operands.head? with
  | .error fault => Action.fail fault
  | .ok parameters =>
      Action.allocate (.function parameters (operands[1]?.getD (.block [])))

/-- Evaluate one of two operands, as the first operand says. -/
def choice (evaluate : Evaluator) (operands : List Node) : Action Cell := do
  let condition ← operand evaluate operands 0
  if (← Action.contents condition).isTruthy then
    operand evaluate operands 1
  else
    operand evaluate operands 2

/--
Go round a loop while its condition holds.  Before a round the number of rounds
with it is held against the limit.
-/
def rounds
    (limit : Option Nat)
    (condition body : Action Cell) :
    (fuel made : Nat) → Action Unit
  | 0, _ => Action.unfinished
  | fuel + 1, made => do
      let cell ← condition
      if (← Action.contents cell).isTruthy then
        match limit.filter (· < made + 1) with
        | some limit => Action.fail (.tooManyIterations limit)
        | none =>
            let _ ← body
            rounds limit condition body fuel (made + 1)
      else
        return ()

/-- Evaluate a loop; its value is absent. -/
def loop
    (limits : Limits)
    (fuel : Nat)
    (evaluate : Evaluator)
    (operands : List Node) :
    Action Cell := do
  rounds limits.maxIterations
    (operand evaluate operands 0) (operand evaluate operands 1) fuel 0
  Action.nothing

/-- The value at an index: the slot of a list, a character of a text, or nothing. -/
def elementAt (evaluate : Evaluator) (operands : List Node) : Action Cell := do
  let (owner, index) ← operandPair evaluate operands
  match ← Action.look fun machine => machine.heap.slot? owner index with
  | some cell => return cell
  | none =>
      match ← Action.look fun machine => machine.heap.character? owner index with
      | some character => Action.allocate (.text (String.ofList [character]))
      | none => Action.nothing

/-- Print the operands on one line, with a space between neighbours. -/
def printing (evaluate : Evaluator) (operands : List Node) : Action Cell := do
  let texts ← allRendered evaluate operands
  Action.printLine (String.intercalate " " texts)
  Action.nothing

/-- Evaluate a form whose head is a keyword. -/
def keywordForm
    (limits : Limits)
    (fuel : Nat)
    (evaluate : Evaluator)
    (operands : List Node) :
    Keyword → Action Cell
  | .declare => declaration evaluate operands
  | .assign => assignment evaluate operands
  | .function => functionValue operands
  | .choose => choice evaluate operands
  | .giveBack => do Action.giveBack (← operand evaluate operands 0)
  | .loop => loop limits fuel evaluate operands
  | .list => do Action.allocate (.list (← all evaluate operands))
  | .importPath => Action.nothing
  | .index => elementAt evaluate operands
  | .print => printing evaluate operands

/-- Evaluate a form whose head is a comparison. -/
def comparisonForm
    (evaluate : Evaluator)
    (operands : List Node)
    (operator : Comparison) :
    Action Cell := do
  let (left, right) ← operandPair evaluate operands
  let result ← Action.look fun machine => operator.holds machine.heap left right
  Action.allocate (.boolean result)

/-- Evaluate a form whose head is an operator of arithmetic. -/
def arithmeticForm
    (evaluate : Evaluator)
    (operands : List Node)
    (operator : Arithmetic) :
    Action Cell := do
  let (left, right) ← operandPair evaluate operands
  let result ← Action.look fun machine => operator.apply machine.heap left right
  Action.allocate result

/-- Evaluate a form whose head is a name: call a function, or yield any other cell. -/
def nameForm (evaluate : Evaluator) (operands : List Node) (name : String) : Action Cell := do
  match ← Action.lookup? name with
  | none => Action.fail (.unrecognizedExpression name)
  | some cell =>
      match ← Action.contents cell with
      | .function parameters body => call evaluate parameters body operands
      | _ => return cell

/-- Evaluate a form. -/
def form
    (limits : Limits)
    (fuel : Nat)
    (evaluate : Evaluator)
    (operands : List Node) :
    (head : Node) → Action Cell
  | .block members => Action.fail (.unrecognizedExpression (Node.block members).display)
  | .leaf (.word word) =>
      match HeadWord.ofWord word with
      | .keyword keyword => keywordForm limits fuel evaluate operands keyword
      | .comparison operator => comparisonForm evaluate operands operator
      | .arithmetic operator => arithmeticForm evaluate operands operator
      | .name name => nameForm evaluate operands name
  | .leaf literal => leafValue literal

/-- Evaluate a node, given an evaluator of the nodes below it. -/
def step (limits : Limits) (fuel : Nat) (evaluate : Evaluator) : Evaluator
  | .leaf value => leafValue value
  | .block [] => sequence evaluate []
  | .block (head :: operands) =>
      if Node.isSequence (head :: operands) then
        sequence evaluate (head :: operands)
      else
        form limits fuel evaluate operands head

end Evaluation

/-- Evaluate a node with some fuel. -/
def evaluate (limits : Limits) : (fuel : Nat) → Evaluation.Evaluator
  | 0 => fun _ => Action.unfinished
  | fuel + 1 => Evaluation.step limits fuel (evaluate limits fuel)

end CellScript
