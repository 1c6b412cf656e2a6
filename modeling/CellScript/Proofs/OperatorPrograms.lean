import CellScript.Proofs.Comparisons
import CellScript.Proofs.ReadBack
import CellScript.Proofs.ReturnSignals

namespace CellScript

/-!
# Operators in programs

A program that is one operator between two integers is read as the form that it is
written as.  Its operands become cells that hold the integers themselves, so the
operator gives its exact result, as far as 64 bits hold it.
-/

/-! ## Results -/

/-- An exact result as a value: an integer where 64 bits hold it, and nothing elsewhere. -/
inductive Checked (result : Int) : Value → Prop
  | within
      (word : Int64)
      (exact : word.toInt = result) :
      Checked result (.integer word)
  | outside
      (beyond : result < Int64.minValue.toInt ∨ Int64.maxValue.toInt < result) :
      Checked result .none

/-- The value that an exact result is given by. -/
def Value.ofExact (result : Int) : Value :=
  match Decimal.toInt64? result with
  | .some word => .integer word
  | .none => .none

/-- A result is given exactly if 64 bits hold it, and by the absent value otherwise. -/
theorem checked_ofExact
    (result : Int) :
    Checked result (Value.ofExact result) := by
  rw [Value.ofExact]
  cases fits : Decimal.toInt64? result with
  | some word => exact .within word (Decimal.toInt_of_toInt64? fits)
  | none =>
      apply Checked.outside
      rw [Decimal.toInt64?] at fits
      split at fits
      · cases fits
      · omega

/-- A result that 64 bits hold is given by an integer. -/
theorem exists_ofExact
    {result : Int}
    (atLeast : Int64.minValue.toInt ≤ result)
    (atMost : result ≤ Int64.maxValue.toInt) :
    ∃ word : Int64, word.toInt = result ∧ Value.ofExact result = .integer word := by
  have fits : Decimal.toInt64? result = some (Int64.ofInt result) :=
    if_pos ⟨atLeast, atMost⟩
  exact ⟨_, Decimal.toInt_of_toInt64? fits, by rw [Value.ofExact, fits]⟩

/-- A result that is too great for 64 bits is given by the absent value. -/
theorem ofExact_of_lt
    {result : Int}
    (beyond : Int64.maxValue.toInt < result) :
    Value.ofExact result = .none := by
  have lacks : Decimal.toInt64? result = none := if_neg (by omega)
  rw [Value.ofExact, lacks]

namespace Arithmetic

variable {operator : Arithmetic} {left right : Int64}

/-- Integers are computed with as integers, also where texts would be joined. -/
theorem onScalars_integers
    (operator : Arithmetic)
    (left right : Int64) :
    operator.onScalars (.integer left) (.integer right) =
      match operator.compute? left right with
      | some result => .integer result
      | none => .none := by
  have noText : ¬ (operator = .add ∧
      ((Scalar.integer left).isText || (Scalar.integer right).isText) = true) := nofun
  rw [onScalars, if_neg noText]
  rfl

/-- An operator that has a result gives it, if 64 bits hold it. -/
theorem onScalars_of_result
    {result : Int}
    (isResult : operator.result? left.toInt right.toInt = some result) :
    operator.onScalars (.integer left) (.integer right) = Value.ofExact result := by
  rw [onScalars_integers, compute?, isResult, Option.bind_some, Value.ofExact]

/-- An operator that has a result never gives a wrong one. -/
theorem checked_onScalars
    {result : Int}
    (isResult : operator.result? left.toInt right.toInt = some result) :
    Checked result (operator.onScalars (.integer left) (.integer right)) := by
  rw [onScalars_of_result isResult]
  exact checked_ofExact result

example : divide.onScalars (.integer Int64.minValue) (.integer (-1)) = .none := by decide

theorem onScalars_of_no_result
    (noResult : operator.result? left.toInt right.toInt = none) :
    operator.onScalars (.integer left) (.integer right) = .none := by
  rw [onScalars_integers, compute?, noResult, Option.bind_none]

end Arithmetic

namespace Comparison

/-- What an operator says of two integers. -/
def relates (operator : Comparison) (left right : Int) : Bool :=
  match operator with
  | .less => left < right
  | .greater => left > right
  | .atMost => left ≤ right
  | .atLeast => left ≥ right
  | .equal => left = right
  | .unequal => left ≠ right

/-- What an operator accepts of the order of two integers is the relation it stands for. -/
theorem accepts_compare
    (operator : Comparison)
    (left right : Int) :
    operator.accepts (compare left right) = operator.relates left right := by
  rcases Int.lt_trichotomy left right with less | equal | greater
  · rw [Int.compare_eq_lt.mpr less]
    cases operator <;> simp [accepts, relates] <;> omega
  · rw [Int.compare_eq_eq.mpr equal]
    cases operator <;> simp [accepts, relates] <;> omega
  · rw [Int.compare_eq_gt.mpr greater]
    cases operator <;> simp [accepts, relates] <;> omega

/-- Integers are compared as they are, without rounding. -/
theorem holds_integers
    {heap : Heap}
    {left right : Cell}
    {value other : Int64}
    (operator : Comparison)
    (isLeft : heap.read left = .integer value)
    (isRight : heap.read right = .integer other) :
    operator.holds heap left right = operator.relates value.toInt other.toInt := by
  have ordered : order? heap left right = some (compare value.toInt other.toInt) := by
    rw [order?, isLeft, isRight]
    rfl
  rw [holds_eq_accepts operator (by rw [isLeft]; rfl) (by rw [isLeft]; rfl) ordered,
    accepts_compare]

end Comparison

/-! ## Reading -/

namespace Node

/-- The form of an operator between two integers. -/
def operation (operator : String) (left right : Int64) : Node :=
  .form operator [.leaf (.number left), .leaf (.number right)]

/-- The source text of an operator between two integers. -/
def operationText (operator : String) (left right : Int64) : String :=
  "(" ++ operator ++ " " ++ Value.integerText left ++ " " ++ Value.integerText right ++ ")"

theorem display_operation
    (operator : String)
    (left right : Int64) :
    (operation operator left right).display = operationText operator left right := by
  apply String.toList_injective
  simp [display, operation, operationText, form, characters, spaced, Leaf.characters,
    Value.integerText]

/-- An operation is readable if its operator is. -/
theorem readable_operation
    {operator : String}
    (left right : Int64)
    (readable : (Leaf.word operator).Readable) :
    (operation operator left right).Readable := by
  apply Readable.block
  intro member isMember
  simp only [List.mem_cons, List.not_mem_nil, or_false] at isMember
  rcases isMember with rfl | rfl | rfl
  · exact .leaf readable
  · exact .leaf (Leaf.readable_number left)
  · exact .leaf (Leaf.readable_number right)

/-- The text of an operation is read as its tree. -/
theorem ofSource_operationText
    {operator : String}
    (left right : Int64)
    (readable : (Leaf.word operator).Readable) :
    ofSource (operationText operator left right) = .ok [operation operator left right] := by
  rw [← display_operation]
  exact (readable_operation left right readable).ofSource_display

end Node

namespace Arithmetic

/-- The word that names an operator. -/
def sign : Arithmetic → String
  | .add => "+"
  | .subtract => "-"
  | .multiply => "*"
  | .divide => "/"

theorem ofWord_sign
    (operator : Arithmetic) :
    HeadWord.ofWord operator.sign = .arithmetic operator := by
  cases operator <;> rfl

/-- Signs of numbers stand for themselves when no digits follow. -/
theorem readable_sign
    (operator : Arithmetic) :
    (Leaf.word operator.sign).Readable := by
  cases operator <;> exact Leaf.readable_word (by decide) (by decide)

end Arithmetic

namespace Comparison

/-- The word that names an operator. -/
def sign : Comparison → String
  | .less => "<"
  | .greater => ">"
  | .atMost => "<="
  | .atLeast => ">="
  | .equal => "="
  | .unequal => "!="

theorem ofWord_sign
    (operator : Comparison) :
    HeadWord.ofWord operator.sign = .comparison operator := by
  cases operator <;> rfl

theorem readable_sign
    (operator : Comparison) :
    (Leaf.word operator.sign).Readable := by
  cases operator <;> exact Leaf.readable_word (by decide) (by decide)

end Comparison

/-! ## Running -/

namespace Action

/-- An action makes cells and does nothing else, and the cell that it ends with holds a value. -/
def Makes (action : Action Cell) (value : Value) : Prop :=
  ∀ machine, ∃ cell heap,
    action machine = .done cell { machine with heap } ∧ heap.read cell = value

/-- Making a cell for a value makes this value. -/
theorem makes_allocate
    (value : Value) :
    (allocate value).Makes value :=
  fun machine => ⟨_, _, rfl, Heap.read_allocate_self machine.heap value⟩

end Action

namespace Evaluation

variable (limits : Limits) (fuel : Nat) (left right : Int64)

/-- Two integers as operands end up in cells that hold them. -/
theorem operandPair_numbers
    (machine : Machine) :
    ∃ leftCell rightCell heap,
      operandPair (evaluate limits (fuel + 1)) [.leaf (.number left), .leaf (.number right)]
          machine =
        .done (leftCell, rightCell) { machine with heap } ∧
      heap.read leftCell = .integer left ∧
      heap.read rightCell = .integer right := by
  let first := machine.heap.allocate (.integer left)
  let second := first.2.allocate (.integer right)
  have kept : second.2.read first.1 = first.2.read first.1 := by
    apply Heap.read_allocate_of_lt
    simp [first, Heap.allocate, Heap.size]
  refine ⟨first.1, second.1, second.2, rfl, ?_, Heap.read_allocate_self _ _⟩
  rw [kept, Heap.read_allocate_self]

/-- An arithmetic form makes the result of its operator. -/
theorem makes_arithmeticForm
    (operator : Arithmetic) :
    (arithmeticForm (evaluate limits (fuel + 1))
        [.leaf (.number left), .leaf (.number right)] operator).Makes
      (operator.onScalars (.integer left) (.integer right)) := by
  intro machine
  obtain ⟨leftCell, rightCell, heap, ended, isLeft, isRight⟩ :=
    operandPair_numbers limits fuel left right machine
  have result :
      operator.apply heap leftCell rightCell =
        operator.onScalars (.integer left) (.integer right) := by
    rw [Arithmetic.apply, isLeft, isRight]
    rfl
  rw [arithmeticForm, Action.bind_of_done ended, ← result]
  exact Action.makes_allocate (operator.apply heap leftCell rightCell) { machine with heap }

theorem makes_comparisonForm
    (operator : Comparison) :
    (comparisonForm (evaluate limits (fuel + 1))
        [.leaf (.number left), .leaf (.number right)] operator).Makes
      (.boolean (operator.relates left.toInt right.toInt)) := by
  intro machine
  obtain ⟨leftCell, rightCell, heap, ended, isLeft, isRight⟩ :=
    operandPair_numbers limits fuel left right machine
  rw [comparisonForm, Action.bind_of_done ended, ← operator.holds_integers isLeft isRight]
  exact Action.makes_allocate (.boolean (operator.holds heap leftCell rightCell))
    { machine with heap }

end Evaluation

namespace Program

/-- A program of one node has the value that the node makes, and leaves nothing but cells. -/
theorem execute_of_makes
    {limits : Limits}
    {fuel : Nat}
    {node : Node}
    {value : Value}
    (makes : (evaluate limits fuel node).Makes value)
    (machine : Machine) :
    ∃ heap, execute limits fuel [node] machine = .done value { machine with heap } := by
  let entered : Machine :=
    { machine with
      heap := (machine.heap.allocate .none).2
      frames := machine.frames.push }
  obtain ⟨cell, heap, ended, holds⟩ := makes entered
  have last :
      Evaluation.lastOf (evaluate limits fuel) (machine.heap.allocate .none).1 [node] entered =
        .done cell { entered with heap } := by
    rw [Evaluation.lastOf, Action.bind_of_done ended]
    rfl
  have inside :
      body limits fuel [node] (machine.withFrames FrameStack.push) =
        .done cell { entered with heap } := by
    have absent :
        Action.nothing (machine.withFrames FrameStack.push) =
          .done (machine.heap.allocate .none).1 entered := rfl
    rw [body, Action.catchReturn, Action.bind_of_done absent, last]
  have outside :
      Action.inScope (body limits fuel [node]) machine = .done cell { machine with heap } := by
    have dropped : machine.frames.push.truncate machine.frames.depth = machine.frames :=
      (FrameStack.GrowsTo.refl machine.frames.push).truncate_eq
    rw [Action.inScope, inside]
    simp only [Ending.onMachine, Machine.withFrames, entered, dropped]
  refine ⟨heap, ?_⟩
  rw [execute, Action.bind_of_done outside, ← holds]
  rfl

/-- Running a text ends with a value of a kind, and leaves nothing else behind but cells. -/
def Gives (source : String) (outcome : Value → Prop) : Prop :=
  ∀ limits fuel machine, ∃ value heap,
    run limits (fuel + 2) source machine = .done value { machine with heap } ∧ outcome value

/-- An operation is run by evaluating its form on the integers themselves. -/
theorem gives_operation
    {sign : String}
    {left right : Int64}
    {value : Value}
    {outcome : Value → Prop}
    (readable : (Leaf.word sign).Readable)
    (makes : ∀ limits fuel,
      (evaluate limits (fuel + 2) (Node.operation sign left right)).Makes value)
    (expected : outcome value) :
    Gives (Node.operationText sign left right) outcome := by
  intro limits fuel machine
  obtain ⟨heap, ended⟩ := execute_of_makes (makes limits fuel) machine
  refine ⟨value, heap, ?_, expected⟩
  rw [run, Node.ofSource_operationText left right readable]
  exact ended

/-- Running the text of an arithmetic operation gives what the operator makes of its operands. -/
theorem gives_arithmetic
    {outcome : Value → Prop}
    (operator : Arithmetic)
    (left right : Int64)
    (expected : outcome (operator.onScalars (.integer left) (.integer right))) :
    Gives (Node.operationText operator.sign left right) outcome := by
  refine gives_operation operator.readable_sign (fun limits fuel => ?_) expected
  rw [Node.operation, Evaluation.evaluate_form, Evaluation.form, operator.ofWord_sign]
  exact Evaluation.makes_arithmeticForm limits fuel left right operator

/-- Running the text of a comparison tells whether its relation holds. -/
theorem gives_comparison
    (operator : Comparison)
    (left right : Int64) :
    Gives (Node.operationText operator.sign left right)
      (· = .boolean (operator.relates left.toInt right.toInt)) := by
  refine gives_operation operator.readable_sign (fun limits fuel => ?_) rfl
  rw [Node.operation, Evaluation.evaluate_form, Evaluation.form, operator.ofWord_sign]
  exact Evaluation.makes_comparisonForm limits fuel left right operator

/--
A text that is an operator between two integers of 64 bits can always be run.  A sum, a
difference, a product and a quotient, which is cut towards zero, are exact where 64 bits
hold them and absent elsewhere, as is a quotient by zero.  A comparison tells the relation
of the two integers themselves.
-/
theorem operators_are_exact
    (left right : Int64) :
    Gives (Node.operationText "+" left right) (Checked (left.toInt + right.toInt)) ∧
    Gives (Node.operationText "-" left right) (Checked (left.toInt - right.toInt)) ∧
    Gives (Node.operationText "*" left right) (Checked (left.toInt * right.toInt)) ∧
    Gives (Node.operationText "/" left right)
      (fun value =>
        if right = 0 then value = .none else Checked (left.toInt.tdiv right.toInt) value) ∧
    Gives (Node.operationText "<" left right) (· = .boolean (left.toInt < right.toInt)) ∧
    Gives (Node.operationText ">" left right) (· = .boolean (left.toInt > right.toInt)) ∧
    Gives (Node.operationText "<=" left right) (· = .boolean (left.toInt ≤ right.toInt)) ∧
    Gives (Node.operationText ">=" left right) (· = .boolean (left.toInt ≥ right.toInt)) ∧
    Gives (Node.operationText "=" left right) (· = .boolean (left.toInt = right.toInt)) ∧
    Gives (Node.operationText "!=" left right) (· = .boolean (left.toInt ≠ right.toInt)) := by
  refine ⟨?sum, ?difference, ?product, ?quotient, gives_comparison .less left right,
    gives_comparison .greater left right, gives_comparison .atMost left right,
    gives_comparison .atLeast left right, gives_comparison .equal left right,
    gives_comparison .unequal left right⟩
  case sum => exact gives_arithmetic .add left right (Arithmetic.checked_onScalars rfl)
  case difference => exact gives_arithmetic .subtract left right (Arithmetic.checked_onScalars rfl)
  case product => exact gives_arithmetic .multiply left right (Arithmetic.checked_onScalars rfl)
  case quotient =>
    apply gives_arithmetic .divide left right
    split
    · next zero =>
        apply Arithmetic.onScalars_of_no_result
        rw [zero]
        rfl
    · next nonzero =>
        have isResult :
            Arithmetic.result? .divide left.toInt right.toInt =
              some (left.toInt.tdiv right.toInt) := by
          rw [Arithmetic.result?, if_neg]
          exact fun zero => nonzero (Int64.toInt_inj.mp zero)
        exact Arithmetic.checked_onScalars isResult

end Program

end CellScript
