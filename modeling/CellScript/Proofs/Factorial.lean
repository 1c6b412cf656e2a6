import CellScript.Proofs.Entering
import CellScript.Proofs.Expressions
import Mathlib.Data.Nat.Factorial.Basic

namespace CellScript.Factorial

open Evaluation

/-!
# Factorials

A function that calls itself computes factorials.  All its active calls share one name
for their parameters, but each of them has a frame of its own, and its operand is a cell
that no other call can reach.  So a call still has its own number when the call that it
has made comes back, and the product of the two results is the factorial.  Where 64 bits
do not hold a factorial the product is absent, and so are the products of all callers.
-/

/-! ## The script -/

/-- The text of a script that computes the factorial of a number. -/
def text (number : Int64) : String :=
  "(let fact (fn (n) ((if (<= n 1) (return 1) (return (* n (fact (- n 1)))))))) (fact " ++
    Value.integerText number ++ ")"

/-- The number whose factorial a call computes. -/
def argument : Node :=
  .leaf (.word "n")

/-- The factorial of small numbers. -/
def one : Node :=
  .leaf (.number 1)

/-- A call makes no further one if its number is small. -/
def isSmall : Node :=
  .form "<=" [argument, one]

/-- The number of the next call. -/
def smaller : Node :=
  .form "-" [argument, one]

/-- The call that a call makes. -/
def again : Node :=
  .form "fact" [smaller]

/-- What a call makes of the result of the call that it makes. -/
def product : Node :=
  .form "*" [argument, again]

/-- A call returns one if its number is small, and the product otherwise. -/
def decision : Node :=
  .form "if" [isSmall, .form "return" [one], .form "return" [product]]

/-- The body of the function. -/
def body : Node :=
  .block [decision]

/-- The function as an expression. -/
def function : Node :=
  .form "fn" [.block [argument], body]

/-- The call that the script makes. -/
def call (number : Int64) : Node :=
  .form "fact" [.leaf (.number number)]

/-- The members of the script. -/
def members (number : Int64) : List Node :=
  [.form "let" [.leaf (.word "fact"), function], call number]

/-- The text of the script is read as its members, whatever the number. -/
theorem ofSource_text
    (number : Int64) :
    Node.ofSource (text number) = .ok (members number) := by
  have isText : String.ofList (Node.spaced (members number)) = text number := by
    unfold text
    apply String.toList_injective
    simp [members, function, body, decision, product, again, smaller, isSmall, one, argument,
      call, Node.form, Node.spaced, Node.characters, Leaf.characters, Value.integerText]
    rfl
  rw [← isText]
  apply Node.ofSource_spaced
  have words : ∀ word ∈ ["let", "fact", "fn", "n", "if", "<=", "return", "*", "-"],
      (Leaf.word word).Readable :=
    fun word isWord => Leaf.readable_word (by revert word; decide) (by revert word; decide)
  simp only [List.forall_mem_cons] at words
  simp [members, function, body, decision, product, again, smaller, isSmall, one, argument,
    call, Node.form, Node.readable_block_iff, Node.readable_leaf_iff, Leaf.readable_number, words]

/-! ## Results -/

/-- The factorial of a number as a value; the factorial of a negative number is one. -/
def result (number : Int64) : Value :=
  .ofExact (number.toInt.toNat.factorial : Nat)

/-- An absent factor makes a product absent, which it is rightly for any factor but zero. -/
theorem onScalars_multiply
    {number : Int64}
    (positive : 1 ≤ number.toInt)
    (factor : Nat)
    (heap : Heap) :
    Arithmetic.multiply.onScalars (Scalar.ofValue heap (.integer number))
        (Scalar.ofValue heap (Value.ofExact factor)) =
      Value.ofExact (number.toInt * factor) := by
  rcases Int.lt_or_le Int64.maxValue.toInt factor with beyond | within
  · have product : Int64.maxValue.toInt < number.toInt * factor := by
      have atLeast := Int.mul_le_mul_of_nonneg_right positive (Int.natCast_nonneg factor)
      omega
    rw [ofExact_of_lt beyond, ofExact_of_lt product]
    rfl
  · have least : Int64.minValue.toInt ≤ 0 := by decide
    obtain ⟨word, same, given⟩ := exists_ofExact (by omega) within
    rw [given, ← same]
    exact Arithmetic.onScalars_of_result rfl

/-- The factorial of a number greater than one is a product with the factorial of the one before. -/
theorem result_of_large
    {number next : Int64}
    (large : 1 < number.toInt)
    (isNext : next.toInt = number.toInt - 1) :
    result number = .ofExact (number.toInt * next.toInt.toNat.factorial) := by
  have succ : number.toInt.toNat = next.toInt.toNat + 1 := by omega
  have same : number.toInt = (next.toInt.toNat + 1 : Nat) := by omega
  rw [result, succ, Nat.factorial_succ, Int.natCast_mul, ← same]

theorem result_of_small
    {number : Int64}
    (small : number.toInt ≤ 1) :
    result number = .integer 1 := by
  have isOne : number.toInt.toNat.factorial = 1 := Nat.factorial_eq_one.mpr (by omega)
  rw [result, isOne]
  rfl

/-! ## Calls -/

/-- The name of the function means the function. -/
def Knows (machine : Machine) : Prop :=
  machine.Means "fact" (.function ["n"] body)

/-- The function is being called with a number. -/
structure Calls (machine : Machine) (number : Int64) : Prop where
  knows : Knows machine
  argument : machine.Means "n" (.integer number)

section

variable {limits : Limits} {fuel : Nat} {machine caller after : Machine} {number : Int64}

theorem Calls.mono
    (calls : Calls machine number)
    (grows : machine.GrowsTo after) :
    Calls after number :=
  ⟨calls.knows.mono grows, calls.argument.mono grows⟩

/-- A frame without bindings hides nothing. -/
theorem Calls.push
    (calls : Calls machine number) :
    Calls (machine.withFrames FrameStack.push) number :=
  ⟨calls.knows, calls.argument⟩

/-- A call has a frame of its own, which hides the numbers of other calls. -/
theorem Calls.enter
    {cell : Cell}
    (knows : Knows caller)
    (holds : caller.heap.Holds cell (.integer number)) :
    Calls (caller.withFrames fun frames => frames.push.declare "n" cell) number := by
  obtain ⟨function, bound, callable⟩ := knows
  refine ⟨⟨function, ?_, callable⟩, cell, FrameStack.lookup?_declare_self _ _ _, holds⟩
  exact (FrameStack.lookup?_declare_of_ne _ _ (by decide)).trans bound

/-- The parameter has the number of the call as its value. -/
theorem denotes_argument
    (calls : Calls machine number)
    (limits : Limits) :
    Denotes limits machine argument (.integer number) :=
  denotes_word (by decide) rfl calls.argument

theorem denotes_isSmall
    (calls : Calls machine number)
    (limits : Limits) :
    Denotes limits machine isSmall (.boolean (number.toInt ≤ 1)) :=
  denotes_comparison (Comparison.ofWord_sign .atMost) (denotes_argument calls limits)
    (denotes_number limits machine 1)

theorem denotes_isSmall_of_small
    (calls : Calls machine number)
    (small : number.toInt ≤ 1)
    (limits : Limits) :
    Denotes limits machine isSmall (.boolean true) :=
  decide_eq_true small ▸ denotes_isSmall calls limits

theorem denotes_isSmall_of_large
    (calls : Calls machine number)
    (large : 1 < number.toInt)
    (limits : Limits) :
    Denotes limits machine isSmall (.boolean false) :=
  decide_eq_false (Int.not_le.mpr large) ▸ denotes_isSmall calls limits

/-- The next call has a number that is one less, which 64 bits hold. -/
theorem denotes_smaller
    (calls : Calls machine number)
    (large : 1 < number.toInt)
    (limits : Limits) :
    ∃ next : Int64,
      next.toInt = number.toInt - 1 ∧ Denotes limits machine smaller (.integer next) := by
  have atMost := number.toInt_le
  have least : Int64.minValue.toInt ≤ 0 := by decide
  obtain ⟨next, isNext, given⟩ :
      ∃ next : Int64, next.toInt = number.toInt - 1 ∧
        Value.ofExact (number.toInt - 1) = .integer next :=
    exists_ofExact (by omega) (by omega)
  refine ⟨next, isNext, ?_⟩
  refine denotes_arithmetic (Arithmetic.ofWord_sign .subtract) (denotes_argument calls limits)
    (denotes_number limits machine 1) fun _ => ?_
  rw [← given]
  exact Arithmetic.onScalars_of_result rfl

/-- A call has the value that the body returns for its operand. -/
theorem denotes_call_of_returns
    {operand : Node}
    {value : Value}
    (knows : Knows machine)
    (denotes : Denotes limits machine operand (.integer number))
    (returns : ∀ {entered}, Calls entered number → Returns limits entered body value) :
    Denotes limits machine (.form "fact" [operand]) value :=
  denotes_call rfl knows denotes fun _ _ grows holds => returns (.enter (knows.mono grows) holds)

/-- The body returns the factorial. -/
theorem returns_body
    (calls : Calls machine number) :
    Returns limits machine body (result number) := by
  -- The induction is on the number; the next call is on another machine and has one less.
  induction count : number.toInt.toNat using Nat.strong_induction_on
      generalizing machine number with
  | h count inductionHypothesis =>
      apply returns_sequence rfl
      have calls := calls.push
      rcases Int.lt_or_le 1 number.toInt with large | small
      · obtain ⟨next, isNext, denotes⟩ := denotes_smaller calls large limits
        have comesBack : Denotes limits _ again (result next) :=
          denotes_call_of_returns calls.knows denotes fun calls =>
            inductionHypothesis _ (by omega) calls rfl
        rw [result_of_large large isNext]
        refine comesTo_choice (denotes_isSmall_of_large calls large limits) (returns_return ?_)
        refine denotes_arithmetic (Arithmetic.ofWord_sign .multiply)
          (denotes_argument calls limits) comesBack fun heap => ?_
        exact onScalars_multiply (Int.le_of_lt large) _ heap
      · rw [result_of_small small]
        refine comesTo_choice (denotes_isSmall_of_small calls small limits) ?_
        exact returns_return (denotes_number limits _ 1)

/-- A call has the factorial of its operand as its value. -/
theorem denotes_fact
    {operand : Node}
    (knows : Knows machine)
    (denotes : Denotes limits machine operand (.integer number)) :
    Denotes limits machine (.form "fact" [operand]) (result number) :=
  denotes_call_of_returns knows denotes returns_body

end

/-! ## What is evaluated on the way -/

/--
A node of the script on a machine on which a run of the script may evaluate it: the
nodes of the function's body are evaluated while it is being called with some number, and
those of the product only if this number is greater than one.
-/
inductive Visited : Node → Machine → Prop
  | leaf (value : Leaf) (machine : Machine) :
      Visited (.leaf value) machine
  | definition (machine : Machine) :
      Visited (.form "let" [.leaf (.word "fact"), function]) machine
  | function (machine : Machine) :
      Visited function machine
  | call
      {machine : Machine}
      (number : Int64)
      (knows : Knows machine) :
      Visited (call number) machine
  | body
      {machine : Machine}
      {number : Int64}
      (calls : Calls machine number) :
      Visited body machine
  | decision
      {machine : Machine}
      {number : Int64}
      (calls : Calls machine number) :
      Visited decision machine
  | isSmall (machine : Machine) :
      Visited isSmall machine
  | one (machine : Machine) :
      Visited (.form "return" [one]) machine
  | returned
      {machine : Machine}
      {number : Int64}
      (calls : Calls machine number)
      (large : 1 < number.toInt) :
      Visited (.form "return" [product]) machine
  | product
      {machine : Machine}
      {number : Int64}
      (calls : Calls machine number)
      (large : 1 < number.toInt) :
      Visited product machine
  | again
      {machine : Machine}
      {number : Int64}
      (calls : Calls machine number)
      (large : 1 < number.toInt) :
      Visited again machine
  | smaller (machine : Machine) :
      Visited smaller machine

section

variable {limits : Limits} {fuel : Nat} {machine : Machine} {number : Int64} {visit : Visit}

/-- A call visits its operand and then the body, which is being called with the operand's value. -/
theorem visited_of_call
    {operand : Node}
    (knows : Knows machine)
    (denotes : Denotes limits machine operand (.integer number))
    (visited : Visited operand machine)
    (isVisit : visit ∈ visits limits fuel (evaluate limits fuel) (.form "fact" [operand]) machine) :
    Visited visit.1 visit.2 := by
  obtain ⟨function, bound, callable⟩ := id knows
  have meaning : HeadWord.ofWord "fact" = .name "fact" := rfl
  rw [visits_form, visitsOfForm, meaning] at isVisit
  dsimp only at isVisit
  rw [visitsOfName, bound, Option.map_some, callable.reads] at isVisit
  rcases List.mem_append.mp isVisit with inOperand | inBody
  · have isOperand : visit ∈ visitsInTurn (evaluate limits fuel) [operand] machine := inOperand
    rw [visitsInTurn_singleton, List.mem_singleton] at isOperand
    rw [isOperand]
    exact visited
  · obtain ⟨bindings, between, known, inBody⟩ := Ending.mem_onDone_iff.mp inBody
    obtain ⟨cell, caller, ended, rest⟩ := Action.bind_eq_done_iff.mp known
    cases rest
    obtain rfl := List.mem_singleton.mp inBody
    obtain ⟨grows, holds⟩ := denotes.of_done ended
    exact .body (.enter (knows.mono grows) holds)

/-- Operands that are leaves are visited as leaves. -/
theorem visited_of_leaves
    {first second : Leaf}
    (isVisit : visit ∈
      visitsInTurn (evaluate limits fuel) [.leaf first, .leaf second] machine) :
    Visited visit.1 visit.2 := by
  rcases mem_visitsInTurn_cons_iff.mp isVisit with rfl | ⟨cell, between, -, isSecond⟩
  · exact .leaf first machine
  · rw [visitsInTurn_singleton, List.mem_singleton] at isSecond
    rw [isSecond]
    exact .leaf second between

/-- A call tests its number first, and returns the product only if it is greater than one. -/
theorem visited_of_decision
    (calls : Calls machine number)
    (isVisit : visit ∈ visits limits fuel (evaluate limits fuel) decision machine) :
    Visited visit.1 visit.2 := by
  rcases List.mem_append.mp isVisit with isTest | inChosen
  · obtain rfl := List.mem_singleton.mp isTest
    exact .isSmall machine
  · obtain ⟨cell, between, ended, isChosen⟩ := Ending.mem_onDone_iff.mp inChosen
    rcases Int.lt_or_le 1 number.toInt with large | small
    · obtain ⟨grows, holds⟩ := (denotes_isSmall_of_large calls large limits).of_done ended
      rw [holds.reads] at isChosen
      obtain rfl := List.mem_singleton.mp isChosen
      exact .returned (calls.mono grows) large
    · obtain ⟨-, holds⟩ := (denotes_isSmall_of_small calls small limits).of_done ended
      rw [holds.reads] at isChosen
      obtain rfl := List.mem_singleton.mp isChosen
      exact .one between

/-- A node of the script visits nodes of the script. -/
theorem visited_of_visits
    {node : Node}
    (visited : Visited node machine)
    (isVisit : visit ∈ visits limits fuel (evaluate limits fuel) node machine) :
    Visited visit.1 visit.2 := by
  cases visited with
  | leaf | function => cases isVisit
  | definition =>
      obtain rfl := List.mem_singleton.mp isVisit
      exact .function machine
  | call number knows =>
      exact visited_of_call knows (denotes_number limits machine number) (.leaf _ _) isVisit
  | body calls =>
      rw [body, visits_sequence rfl, visitsInTurn_singleton, List.mem_singleton] at isVisit
      rw [isVisit]
      exact .decision calls.push
  | decision calls => exact visited_of_decision calls isVisit
  | isSmall | smaller => exact visited_of_leaves isVisit
  | one =>
      obtain rfl := List.mem_singleton.mp isVisit
      exact .leaf _ _
  | returned calls large =>
      obtain rfl := List.mem_singleton.mp isVisit
      exact .product calls large
  | product calls large =>
      have inTurn : visit ∈ visitsInTurn (evaluate limits fuel) [argument, again] machine := isVisit
      rcases mem_visitsInTurn_cons_iff.mp inTurn with rfl | ⟨cell, between, ended, isAgain⟩
      · exact .leaf _ machine
      · obtain ⟨grows, -⟩ := (denotes_argument calls limits).of_done ended
        rw [visitsInTurn_singleton, List.mem_singleton] at isAgain
        rw [isAgain]
        exact .again (calls.mono grows) large
  | again calls large =>
      obtain ⟨next, -, denotes⟩ := denotes_smaller calls large limits
      exact visited_of_call calls.knows denotes (.smaller machine) isVisit

end

/-- A call that makes another one has a number greater than one. -/
theorem exists_calls_of_again
    (visited : Visited again machine) :
    ∃ number, Calls machine number ∧ 1 < number.toInt := by
  generalize same : again = node at visited
  cases visited with
  | again calls large => exact ⟨_, calls, large⟩
  | leaf | definition | function | call | body | decision | isSmall | one | returned | product
  | smaller =>
      simp [again, function, call, body, decision, isSmall, one, product, smaller, argument,
        Node.form] at same

/-! ## Runs of the script -/

section

variable {limits : Limits} {fuel left : Nat} {machine start : Machine} {number : Int64}
variable {deep : Node}

/-- The first member of the script binds the name of the function. -/
theorem eventually_defined
    (limits : Limits)
    (machine : Machine) :
    ∃ absent defined,
      (∀ᶠ fuel in Filter.atTop,
        evaluate limits fuel (.form "let" [.leaf (.word "fact"), function]) machine =
          .done absent defined) ∧
        Knows defined ∧
        defined.sink = machine.sink := by
  have named : parameterNames [argument] = .ok ["n"] := rfl
  obtain ⟨cell, absent, after, ends, grows, holds⟩ :=
    eventually_declaration (denotes_function limits named machine body) "fact"
  exact ⟨absent, _, ends, ⟨cell, FrameStack.lookup?_declare_self _ _ _, holds⟩, grows.sink⟩

/-- A run of the script evaluates nodes of the script. -/
theorem visited_of_reaches
    (reaches : Program.Reaches limits fuel (members number) machine left deep start) :
    Visited deep start := by
  obtain ⟨earlier, member, later, between, split, passes, reaches⟩ := reaches
  refine reaches.keeps (fun _ _ _ visited _ => visited_of_visits visited) ?_
  have isVisit :
      (member, between) ∈ visitsInTurn (evaluate limits fuel) (earlier ++ member :: later)
        (Program.opened machine) := mem_visitsInTurn passes
  rw [← split, members] at isVisit
  rcases mem_visitsInTurn_cons_iff.mp isVisit with same | ⟨absent, defined, ended, isCall⟩
  · cases same
    exact .definition _
  · obtain ⟨_, _, ends, knows, -⟩ := eventually_defined limits (Program.opened machine)
    cases ended.symm.trans (eq_of_eventually ends (by rw [ended]; nofun))
    rw [visitsInTurn_singleton, List.mem_singleton] at isCall
    cases isCall
    exact .call number knows

end

/--
The script ends with the factorial of its number, which is one for numbers below one,
where 64 bits hold it, and with the absent value elsewhere; it leaves nothing but cells.
Whenever a call comes to make another one, its parameter means a cell with a number
greater than one.  The other call comes back with the factorial of the number before it,
and the parameter then means the same cell, which still holds the same number.
-/
theorem computes_factorial
    (limits : Limits)
    (machine : Machine)
    (number : Int64) :
    Node.ofSource (text number) = .ok (members number) ∧
      (∃ value heap,
        Program.RunsTo limits (text number) machine (.done value { machine with heap }) ∧
          (number.toInt ≤ 1 → value = .integer 1) ∧
          Checked (number.toInt.toNat.factorial : Nat) value) ∧
      ∀ fuel left pending,
        Program.Reaches limits fuel (members number) machine left again pending →
        ∃ cell own,
          pending.frames.lookup? "n" = some cell ∧
            pending.heap.read cell = .integer own ∧
            1 < own.toInt ∧
            (∃ returned after,
              ∀ᶠ more in Filter.atTop, evaluate limits more again pending = .done returned after) ∧
            ∀ returned after,
              evaluate limits left again pending = .done returned after →
              after.frames = pending.frames ∧
                after.heap.read cell = .integer own ∧
                Checked ((own.toInt - 1).toNat.factorial : Nat) (after.heap.read returned) := by
  refine ⟨ofSource_text number, ?_, ?_⟩
  · obtain ⟨absent, defined, defines, knows, sink⟩ :=
      eventually_defined limits (Program.opened machine)
    obtain ⟨cell, after, ends, grows, holds⟩ :=
      denotes_fact knows (denotes_number limits defined number) defined (.refl defined)
    refine ⟨result number, after.heap, ?_, result_of_small, checked_ofExact _⟩
    filter_upwards [defines, ends] with fuel defined ended
    have executed := Program.execute_of_done (members number)
      ((Action.bind_of_done defined).trans (Action.bind_of_done ended))
    rw [holds.reads, grows.sink, sink] at executed
    rw [Program.run, ofSource_text]
    exact executed
  · intro fuel left pending reaches
    obtain ⟨own, calls, large⟩ := exists_calls_of_again (visited_of_reaches reaches)
    obtain ⟨cell, bound, holds⟩ := calls.argument
    obtain ⟨next, isNext, denotes⟩ := denotes_smaller calls large limits
    have comesBack := denotes_fact calls.knows denotes
    obtain ⟨returned, after, ends, -, -⟩ := comesBack pending (.refl pending)
    refine ⟨cell, own, bound, holds.reads, large, ⟨returned, after, ends⟩, ?_⟩
    intro returned after ended
    obtain ⟨grows, returnedHolds⟩ := comesBack.of_done ended
    refine ⟨grows.frames, (holds.mono grows.heap).reads, ?_⟩
    rw [returnedHolds.reads, ← isNext]
    exact checked_ofExact _

/-- The call with two waits for the call with one, and has its number back afterwards. -/
theorem factorial_of_two_waits_for_factorial_of_one :
    text 2 =
        "(let fact (fn (n) ((if (<= n 1) (return 1) (return (* n (fact (- n 1)))))))) (fact 2)" ∧
      (∃ heap,
        Program.RunsTo .unlimited (text 2) (Machine.start none)
          (.done (.integer 2) { Machine.start none with heap })) ∧
      ∃ fuel left pending cell own returned after,
        Program.Reaches .unlimited fuel (members 2) (Machine.start none) left again pending ∧
          pending.frames.lookup? "n" = some cell ∧
          pending.heap.read cell = .integer own ∧
          evaluate .unlimited left again pending = .done returned after ∧
          after.frames = pending.frames ∧
          after.heap.read cell = .integer own := by
  obtain ⟨-, ⟨value, heap, runs, -, isResult⟩, whenPending⟩ :=
    computes_factorial .unlimited (Machine.start none) 2
  have isTwo : value = .integer 2 := by
    cases isResult with
    | within word exact => exact congrArg Value.integer (Int64.toInt_inj.mp (exact.trans rfl))
    | outside beyond => exact absurd beyond (by decide)
  have reaches : Program.Reaches .unlimited 20 (members 2) (Machine.start none) _ again _ :=
    ⟨[_], call 2, [], _, rfl, .cons rfl (.nil _),
      .deeper (.body rfl rfl rfl rfl rfl)
        (.deeper (.member (show Node.isSequence ([] ++ decision :: []) = true from rfl) (.nil _))
          (.deeper (.operand (.otherwise rfl rfl))
            (.deeper (.operand .returned)
              (.deeper
                (.operand (.computed rfl
                  (show Passes _ [argument] _ _ from .cons rfl (.nil _)) (by decide)))
                .here))))⟩
  obtain ⟨cell, own, bound, isOwn, -, -, whenBack⟩ := whenPending _ _ _ reaches
  obtain ⟨frames, intact, -⟩ := whenBack _ _ rfl
  exact ⟨by decide +kernel, ⟨heap, isTwo ▸ runs⟩, _, _, _, cell, own, _, _, reaches, bound, isOwn,
    rfl, frames, intact⟩

end CellScript.Factorial
