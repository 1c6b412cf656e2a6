import CellScript.Proofs.FrameDiscipline

namespace CellScript

/-!
# Return signals in operands

A form evaluates its operands one after the other.  When one of them raises a
return signal, the form is left at once, with that signal and on the machine that
the operand leaves behind.  The owner and the index inside a target that is to be
assigned are the exception: there the signal is taken for an ordinary value and
the assignment goes on.
-/

namespace Action

/-- What follows a computation that has come to its end is done next. -/
theorem bind_of_done
    {α β : Type}
    {action : Action α}
    {next : α → Action β}
    {machine after : Machine}
    {value : α}
    (ended : action machine = .done value after) :
    (action >>= next) machine = next value after := by
  rw [bind_apply, ended]

theorem bind_of_left
    {α β : Type}
    {action : Action α}
    {next : α → Action β}
    {machine after : Machine}
    {exit : Exit}
    (left : action machine = .left exit after) :
    (action >>= next) machine = .left exit after := by
  rw [bind_apply, left]

/-- Two computations in a row come to an end if and only if each of them does. -/
theorem bind_eq_done_iff
    {α β : Type}
    {action : Action α}
    {next : α → Action β}
    {machine after : Machine}
    {result : β} :
    (action >>= next) machine = .done result after ↔
      ∃ value between,
        action machine = .done value between ∧ next value between = .done result after := by
  rw [bind_apply]
  cases action machine with
  | done value between =>
      constructor
      · exact fun ended => ⟨value, between, rfl, ended⟩
      · rintro ⟨_, _, same, ended⟩
        cases same
        exact ended
  | left exit between => simp
  | unfinished => simp

/-- A computation is left in its first part or in what follows it. -/
theorem bind_eq_left_iff
    {α β : Type}
    {action : Action α}
    {next : α → Action β}
    {machine after : Machine}
    {exit : Exit} :
    (action >>= next) machine = .left exit after ↔
      action machine = .left exit after ∨
        ∃ value between,
          action machine = .done value between ∧ next value between = .left exit after := by
  rw [bind_apply]
  cases action machine with
  | done value between =>
      constructor
      · exact fun left => .inr ⟨value, between, rfl, left⟩
      · rintro (left | ⟨_, _, same, left⟩)
        · cases left
        · cases same
          exact left
  | left exit between => simp
  | unfinished => simp

/-- Taking a return signal changes nothing about the machine that is left behind. -/
theorem machine?_catchReturn
    (action : Action Cell)
    (machine : Machine) :
    (catchReturn action machine).machine? = (action machine).machine? := by
  rw [catchReturn]
  cases action machine with
  | done cell after => rfl
  | left exit after => cases exit <;> rfl
  | unfinished => rfl

/-- A return signal that is caught is a value. -/
theorem catchReturn_of_returning
    {action : Action Cell}
    {machine after : Machine}
    {cell : Cell}
    (signals : action machine = .left (.returning cell) after) :
    catchReturn action machine = .done cell after := by
  rw [catchReturn, signals]

end Action

namespace Evaluation

/-- Nodes are evaluated in turn, each to an ordinary end. -/
inductive Passes (evaluate : Evaluator) : List Node → Machine → Machine → Prop where
  | nil (machine : Machine) :
      Passes evaluate [] machine machine
  | cons
      {node : Node}
      {rest : List Node}
      {cell : Cell}
      {before between after : Machine}
      (ended : evaluate node before = .done cell between)
      (passes : Passes evaluate rest between after) :
      Passes evaluate (node :: rest) before after

/-- A loop makes rounds, each with its condition truthy and within the limit. -/
inductive RoundsMade
    (limit : Option Nat)
    (condition body : Action Cell) : Nat → Machine → Machine → Prop where
  | none (machine : Machine) :
      RoundsMade limit condition body 0 machine machine
  | another
      {made : Nat}
      {before between tested after : Machine}
      {cell value : Cell}
      (earlier : RoundsMade limit condition body made before between)
      (holds : condition between = .done cell tested)
      (truthy : (tested.heap.read cell).isTruthy = true)
      (allowed : ∀ bound ∈ limit, made < bound)
      (ended : body tested = .done value after) :
      RoundsMade limit condition body (made + 1) before after

/--
Evaluating a form from one machine comes to evaluate an operand on another one
and waits for its value.  Every operand of every form is here, but for the owner
and the index of a target that is to be assigned.
-/
inductive Awaits (limits : Limits) (fuel : Nat) :
    (form : Node) → Machine → (operand : Node) → Machine → Prop where
  /-- The value that a name is bound to. -/
  | declared
      {name : String}
      {value : Node}
      {rest : List Node}
      {machine : Machine} :
      Awaits limits fuel
        (.form "let" (.leaf (.word name) :: value :: rest)) machine value machine
  /-- The value that is assigned to a name. -/
  | assigned
      {name : String}
      {value : Node}
      {rest : List Node}
      {machine : Machine}
      {cell : Cell}
      (bound : machine.frames.lookup? name = some cell) :
      Awaits limits fuel
        (.form "set" (.leaf (.word name) :: value :: rest)) machine value machine
  /-- The value that is assigned to an index form, once owner and index are known. -/
  | assignedAt
      {ownerNode indexNode value : Node}
      {rest : List Node}
      {machine between known : Machine}
      {owner index : Cell}
      {target : Target}
      (ownerEnds : Action.catchReturn (evaluate limits fuel ownerNode) machine =
        .done owner between)
      (indexEnds : Action.catchReturn (evaluate limits fuel indexNode) between =
        .done index known)
      (resolved : indexTarget? known.heap ownerNode owner index = some target)
      (bound : ∀ name position, target = .position name position →
        ∃ cell, known.frames.lookup? name = some cell) :
      Awaits limits fuel
        (.form "set" (.form "index" [ownerNode, indexNode] :: value :: rest))
        machine value known
  /-- The condition of a choice. -/
  | chooses
      {condition : Node}
      {rest : List Node}
      {machine : Machine} :
      Awaits limits fuel (.form "if" (condition :: rest)) machine condition machine
  /-- The operand that a choice takes when its condition holds. -/
  | chosen
      {condition chosen : Node}
      {rest : List Node}
      {machine tested : Machine}
      {cell : Cell}
      (ended : evaluate limits fuel condition machine = .done cell tested)
      (truthy : (tested.heap.read cell).isTruthy = true) :
      Awaits limits fuel
        (.form "if" (condition :: chosen :: rest)) machine chosen tested
  /-- The operand that a choice takes when its condition does not hold. -/
  | otherwise
      {condition skipped chosen : Node}
      {rest : List Node}
      {machine tested : Machine}
      {cell : Cell}
      (ended : evaluate limits fuel condition machine = .done cell tested)
      (falsy : (tested.heap.read cell).isTruthy = false) :
      Awaits limits fuel
        (.form "if" (condition :: skipped :: chosen :: rest)) machine chosen tested
  /-- The value that is returned. -/
  | returned
      {value : Node}
      {rest : List Node}
      {machine : Machine} :
      Awaits limits fuel (.form "return" (value :: rest)) machine value machine
  /-- The condition of a loop, after any number of rounds. -/
  | loops
      {condition : Node}
      {rest : List Node}
      {made : Nat}
      {machine between : Machine}
      (rounds : RoundsMade limits.maxIterations
        (operand (evaluate limits fuel) (condition :: rest) 0)
        (operand (evaluate limits fuel) (condition :: rest) 1) made machine between)
      (enough : made < fuel) :
      Awaits limits fuel
        (.form "while" (condition :: rest)) machine condition between
  /-- The body of a loop, after any number of rounds. -/
  | repeated
      {condition body : Node}
      {rest : List Node}
      {made : Nat}
      {machine between tested : Machine}
      {cell : Cell}
      (rounds : RoundsMade limits.maxIterations
        (operand (evaluate limits fuel) (condition :: body :: rest) 0)
        (operand (evaluate limits fuel) (condition :: body :: rest) 1)
        made machine between)
      (enough : made < fuel)
      (ended : evaluate limits fuel condition between = .done cell tested)
      (truthy : (tested.heap.read cell).isTruthy = true)
      (allowed : ∀ bound ∈ limits.maxIterations, made < bound) :
      Awaits limits fuel
        (.form "while" (condition :: body :: rest)) machine body tested
  /-- An item of a list. -/
  | item
      {earlier later : List Node}
      {node : Node}
      {machine between : Machine}
      (passes : Passes (evaluate limits fuel) earlier machine between) :
      Awaits limits fuel
        (.form "list" (earlier ++ node :: later)) machine node between
  /-- The owner or the index of an element. -/
  | indexed
      {earlier later : List Node}
      {node : Node}
      {machine between : Machine}
      (passes : Passes (evaluate limits fuel) earlier machine between)
      (within : earlier.length < 2) :
      Awaits limits fuel
        (.form "index" (earlier ++ node :: later)) machine node between
  /-- Either side of a comparison. -/
  | compared
      {word : String}
      {operator : Comparison}
      {earlier later : List Node}
      {node : Node}
      {machine between : Machine}
      (meaning : HeadWord.ofWord word = .comparison operator)
      (passes : Passes (evaluate limits fuel) earlier machine between)
      (within : earlier.length < 2) :
      Awaits limits fuel
        (.form word (earlier ++ node :: later)) machine node between
  /-- Either side of an operation of arithmetic. -/
  | computed
      {word : String}
      {operator : Arithmetic}
      {earlier later : List Node}
      {node : Node}
      {machine between : Machine}
      (meaning : HeadWord.ofWord word = .arithmetic operator)
      (passes : Passes (evaluate limits fuel) earlier machine between)
      (within : earlier.length < 2) :
      Awaits limits fuel
        (.form word (earlier ++ node :: later)) machine node between
  /-- A printed operand. -/
  | printed
      {earlier later : List Node}
      {node : Node}
      {machine between : Machine}
      (passes : Passes (evaluate limits fuel) earlier machine between) :
      Awaits limits fuel
        (.form "print" (earlier ++ node :: later)) machine node between
  /-- An operand of a call, as far as there are parameters. -/
  | actual
      {word name : String}
      {function : Cell}
      {parameters : List String}
      {body : Node}
      {earlier later : List Node}
      {node : Node}
      {machine between : Machine}
      (meaning : HeadWord.ofWord word = .name name)
      (bound : machine.frames.lookup? name = some function)
      (callable : machine.heap.read function = .function parameters body)
      (passes : Passes (evaluate limits fuel) earlier machine between)
      (within : earlier.length < parameters.length) :
      Awaits limits fuel
        (.form word (earlier ++ node :: later)) machine node between

/-! ## Operands in turn -/

section

variable {evaluate : Evaluator} {earlier later : List Node} {node : Node}
variable {machine between after : Machine} {exit : Exit}

theorem all_of_left
    (passes : Passes evaluate earlier machine between)
    (left : evaluate node between = .left exit after) :
    all evaluate (earlier ++ node :: later) machine = .left exit after := by
  induction passes with
  | nil machine => exact Action.bind_of_left left
  | cons ended passes inductionHypothesis =>
      exact (Action.bind_of_done ended).trans
        (Action.bind_of_left (inductionHypothesis left))

theorem allRendered_of_left
    (passes : Passes evaluate earlier machine between)
    (left : evaluate node between = .left exit after) :
    allRendered evaluate (earlier ++ node :: later) machine = .left exit after := by
  induction passes with
  | nil machine => exact Action.bind_of_left left
  | cons ended passes inductionHypothesis =>
      exact (Action.bind_of_done ended).trans
        ((Action.bind_of_done rfl).trans
          (Action.bind_of_left (inductionHypothesis left)))

/-- An operand of a call that has a parameter and is left early leaves the call. -/
theorem actuals_of_left
    {parameters : List String}
    (passes : Passes evaluate earlier machine between)
    (within : earlier.length < parameters.length)
    (left : evaluate node between = .left exit after) :
    actuals evaluate parameters (earlier ++ node :: later) machine = .left exit after := by
  induction passes generalizing parameters with
  | nil machine =>
      cases parameters with
      | nil => cases within
      | cons parameter rest => exact Action.bind_of_left left
  | cons ended passes inductionHypothesis =>
      cases parameters with
      | nil => cases within
      | cons parameter rest =>
          have others := inductionHypothesis (Nat.lt_of_succ_lt_succ within) left
          exact (Action.bind_of_done ended).trans (Action.bind_of_left others)

/-- An operator is left early by the first of its two operands that is. -/
theorem operandPair_of_left
    (passes : Passes evaluate earlier machine between)
    (within : earlier.length < 2)
    (left : evaluate node between = .left exit after) :
    operandPair evaluate (earlier ++ node :: later) machine = .left exit after := by
  cases passes with
  | nil => exact Action.bind_of_left left
  | cons ended passes =>
      cases passes with
      | nil => exact (Action.bind_of_done ended).trans (Action.bind_of_left left)
      | cons ended passes =>
          simp only [List.length_cons] at within
          omega

end

/-! ## Loops -/

/-- A limit does not stop another round exactly if it is greater than the rounds made. -/
theorem filter_lt_eq_none_iff
    {limit : Option Nat}
    {made : Nat} :
    limit.filter (· < made + 1) = none ↔ ∀ bound ∈ limit, made < bound := by
  simp only [Option.filter_eq_none_iff, decide_eq_true_eq, Nat.not_lt, Nat.succ_le_iff,
    Option.mem_def]

/-- A round whose condition is truthy and within the limit goes on with the body. -/
theorem rounds_of_truthy
    {limit : Option Nat}
    {condition body : Action Cell}
    {fuel made : Nat}
    {machine tested : Machine}
    {cell : Cell}
    (holds : condition machine = .done cell tested)
    (truthy : (tested.heap.read cell).isTruthy = true)
    (allowed : ∀ bound ∈ limit, made < bound) :
    rounds limit condition body (fuel + 1) made machine =
      (body >>= fun _ => rounds limit condition body fuel (made + 1)) tested := by
  rw [rounds, Action.bind_of_done holds]
  simp only [Action.contents, Action.look, Action.bind_apply, truthy, if_true,
    filter_lt_eq_none_iff.mpr allowed]

/-- Once some rounds are made, a loop stands before the next one. -/
theorem rounds_of_roundsMade
    {limit : Option Nat}
    {condition body : Action Cell}
    {fuel made : Nat}
    {before between : Machine}
    (roundsMade : RoundsMade limit condition body made before between)
    (enough : made ≤ fuel) :
    rounds limit condition body fuel 0 before =
      rounds limit condition body (fuel - made) made between := by
  induction roundsMade with
  | none machine => rfl
  | @another made before between tested after cell value
      earlier holds truthy allowed ended inductionHypothesis =>
      obtain ⟨left, fuelLeft⟩ : ∃ left, fuel - made = left + 1 :=
        ⟨fuel - made - 1, by omega⟩
      have fewer : fuel - (made + 1) = left := by omega
      rw [inductionHypothesis (by omega), fuelLeft, fewer,
        rounds_of_truthy holds truthy allowed]
      exact Action.bind_of_done ended

/-! ## Assignments to index forms -/

/-- What an assignment to an index form still has to do once owner and index are known. -/
def assignIndexed
    (evaluate : Evaluator)
    (operands : List Node)
    (node ownerNode : Node)
    (owner index : Cell) :
    Action Cell := do
  match ← Action.look fun machine => indexTarget? machine.heap ownerNode owner index with
  | some target =>
      assignTo evaluate operands target
      Action.nothing
  | none => Action.fail (.invalidAssignmentTarget node.display)

/-- An assignment to an index form takes owner and index as they come, and then goes on. -/
theorem assignment_indexed
    (evaluate : Evaluator)
    (ownerNode indexNode : Node)
    (rest : List Node) :
    assignment evaluate (.form "index" [ownerNode, indexNode] :: rest) = (do
      let owner ← Action.catchReturn (evaluate ownerNode)
      let index ← Action.catchReturn (evaluate indexNode)
      assignIndexed evaluate (.form "index" [ownerNode, indexNode] :: rest)
        (.form "index" [ownerNode, indexNode]) ownerNode owner index) := by
  have parts :
      indexParts? (.form "index" [ownerNode, indexNode]) = some (ownerNode, indexNode) := rfl
  simp only [assignment, List.head?_cons, resolveTarget, parts, bind_assoc]
  refine bind_congr fun owner => bind_congr fun index => bind_congr fun target? => ?_
  cases target? <;> rfl

theorem lookupDeclared_of_bound
    {name : String}
    {machine : Machine}
    {cell : Cell}
    (bound : machine.frames.lookup? name = some cell) :
    lookupDeclared name machine = .done cell machine := by
  simp only [lookupDeclared, Action.lookup?, Action.look, Action.bind_apply, bound]
  rfl

theorem lookupDeclared_of_unbound
    {name : String}
    {machine : Machine}
    (unbound : machine.frames.lookup? name = none) :
    lookupDeclared name machine = .left (.failing (.undefinedVariable name)) machine := by
  simp only [lookupDeclared, Action.lookup?, Action.look, Action.bind_apply, unbound]
  rfl

/-- An assignment whose target has a meaning is left early by its value. -/
theorem assignTo_of_left
    {evaluate : Evaluator}
    {target : Target}
    {first value : Node}
    {rest : List Node}
    {machine after : Machine}
    {exit : Exit}
    (bound : ∀ name, (target = .name name ∨ ∃ position, target = .position name position) →
      ∃ cell, machine.frames.lookup? name = some cell)
    (left : evaluate value machine = .left exit after) :
    assignTo evaluate (first :: value :: rest) target machine = .left exit after := by
  cases target with
  | slot cell => exact Action.bind_of_left left
  | name name =>
      obtain ⟨cell, isBound⟩ := bound name (.inl rfl)
      exact (Action.bind_of_done (lookupDeclared_of_bound isBound)).trans
        (Action.bind_of_left left)
  | position name position =>
      obtain ⟨cell, isBound⟩ := bound name (.inr ⟨position, rfl⟩)
      exact (Action.bind_of_done (lookupDeclared_of_bound isBound)).trans
        (Action.bind_of_left left)

/-- Only the assigned value can leave assigning by a return signal. -/
theorem operand_of_assignTo_returning
    {evaluate : Evaluator}
    {operands : List Node}
    {target : Target}
    {machine after : Machine}
    {cell : Cell}
    (signals : assignTo evaluate operands target machine = .left (.returning cell) after) :
    operand evaluate operands 1 machine = .left (.returning cell) after := by
  -- Whatever is written afterwards ends ordinarily, so the signal is the operand's.
  have ofWrite {write : Cell → Action Unit}
      (writes : ∀ value between, ∃ final, write value between = .done () final)
      (left : (operand evaluate operands 1 >>= write) machine =
        .left (.returning cell) after) :
      operand evaluate operands 1 machine = .left (.returning cell) after := by
    rcases Action.bind_eq_left_iff.mp left with inOperand | ⟨value, between, _, inWrite⟩
    · exact inOperand
    · obtain ⟨final, written⟩ := writes value between
      rw [written] at inWrite
      cases inWrite
  have ofLookup {name : String} {write : Cell → Cell → Action Unit}
      (writes : ∀ owner value between, ∃ final, write owner value between = .done () final)
      (left : (lookupDeclared name >>= fun owner =>
        operand evaluate operands 1 >>= write owner) machine =
          .left (.returning cell) after) :
      operand evaluate operands 1 machine = .left (.returning cell) after := by
    cases found : machine.frames.lookup? name with
    | some owner =>
        rw [Action.bind_of_done (lookupDeclared_of_bound found)] at left
        exact ofWrite (writes owner) left
    | none =>
        rw [Action.bind_of_left (lookupDeclared_of_unbound found)] at left
        cases left
  cases target with
  | name name => exact ofLookup (fun _ _ _ => ⟨_, rfl⟩) signals
  | slot slot => exact ofWrite (fun _ _ => ⟨_, rfl⟩) signals
  | position name position => exact ofLookup (fun _ _ _ => ⟨_, rfl⟩) signals

/-- An assignment by index is left early by its value once the target is known. -/
theorem assignIndexed_of_left
    {evaluate : Evaluator}
    {operands : List Node}
    {node ownerNode : Node}
    {owner index : Cell}
    {target : Target}
    {machine after : Machine}
    {exit : Exit}
    (resolved : indexTarget? machine.heap ownerNode owner index = some target)
    (left : assignTo evaluate operands target machine = .left exit after) :
    assignIndexed evaluate operands node ownerNode owner index machine =
      .left exit after := by
  simp only [assignIndexed, Action.look, Action.bind_apply, resolved, left]

/-- A target by index is never just a name. -/
theorem indexTarget?_ne_name
    {heap : Heap}
    {ownerNode : Node}
    {owner index : Cell}
    (name : String) :
    indexTarget? heap ownerNode owner index ≠ some (.name name) := by
  unfold indexTarget?
  split
  · nofun
  · cases ownerNode.word? with
    | none => nofun
    | some word =>
        cases (heap.read index).position? with
        | none => nofun
        | some position => nofun

/-! ## Forms -/

theorem evaluate_form
    (limits : Limits)
    (fuel : Nat)
    (word : String)
    (operands : List Node) :
    CellScript.evaluate limits (fuel + 1) (.form word operands) =
      form limits fuel (CellScript.evaluate limits fuel) operands (.leaf (.word word)) := rfl

/-- A form whose head means a function is a call. -/
theorem nameForm_of_function
    {evaluate : Evaluator}
    {operands : List Node}
    {name : String}
    {function : Cell}
    {parameters : List String}
    {body : Node}
    {machine : Machine}
    (bound : machine.frames.lookup? name = some function)
    (callable : machine.heap.read function = .function parameters body) :
    nameForm evaluate operands name machine =
      call evaluate parameters body operands machine := by
  simp only [nameForm, Action.lookup?, Action.contents, Action.look, Action.bind_apply,
    bound, callable]

/-- Once its condition has come to its end, a choice goes on with one operand. -/
theorem choice_of_done
    {evaluate : Evaluator}
    {condition : Node}
    {rest : List Node}
    {machine tested : Machine}
    {cell : Cell}
    (ended : evaluate condition machine = .done cell tested) :
    choice evaluate (condition :: rest) machine =
      operand evaluate (condition :: rest)
        (if (tested.heap.read cell).isTruthy then 1 else 2) tested := by
  refine (Action.bind_of_done ended).trans ?_
  simp only [Action.contents, Action.look, Action.bind_apply]
  cases (tested.heap.read cell).isTruthy <;> rfl

/-- A condition that is left early in some round leaves the loop. -/
theorem rounds_of_condition_left
    {limit : Option Nat}
    {condition body : Action Cell}
    {fuel made : Nat}
    {before between after : Machine}
    {exit : Exit}
    (roundsMade : RoundsMade limit condition body made before between)
    (enough : made < fuel)
    (left : condition between = .left exit after) :
    rounds limit condition body fuel 0 before = .left exit after := by
  obtain ⟨fuelLeft, remains⟩ : ∃ fuelLeft, fuel - made = fuelLeft + 1 :=
    ⟨fuel - made - 1, by omega⟩
  rw [rounds_of_roundsMade roundsMade (Nat.le_of_lt enough), remains]
  exact Action.bind_of_left left

theorem rounds_of_body_left
    {limit : Option Nat}
    {condition body : Action Cell}
    {fuel made : Nat}
    {before between tested after : Machine}
    {cell : Cell}
    {exit : Exit}
    (roundsMade : RoundsMade limit condition body made before between)
    (enough : made < fuel)
    (holds : condition between = .done cell tested)
    (truthy : (tested.heap.read cell).isTruthy = true)
    (allowed : ∀ bound ∈ limit, made < bound)
    (left : body tested = .left exit after) :
    rounds limit condition body fuel 0 before = .left exit after := by
  obtain ⟨fuelLeft, remains⟩ : ∃ fuelLeft, fuel - made = fuelLeft + 1 :=
    ⟨fuel - made - 1, by omega⟩
  rw [rounds_of_roundsMade roundsMade (Nat.le_of_lt enough), remains,
    rounds_of_truthy holds truthy allowed]
  exact Action.bind_of_left left

/-- A return signal in an operand that a form waits for leaves the form. -/
theorem Awaits.returning
    {limits : Limits}
    {fuel : Nat}
    {node operandNode : Node}
    {machine between after : Machine}
    {cell : Cell}
    (awaits : Awaits limits fuel node machine operandNode between)
    (signals : CellScript.evaluate limits fuel operandNode between =
      .left (.returning cell) after) :
    CellScript.evaluate limits (fuel + 1) node machine = .left (.returning cell) after := by
  cases awaits with
  | declared =>
      exact (Action.bind_of_done rfl).trans (Action.bind_of_left signals)
  | @assigned name value rest machine target bound =>
      have found :
          (pure (Target.name name) : Action Target) machine = .done (.name name) machine := rfl
      refine (Action.bind_of_done found).trans
        (Action.bind_of_left (assignTo_of_left ?_ signals))
      rintro other (same | ⟨position, same⟩)
      · cases same
        exact ⟨target, bound⟩
      · cases same
  | @assignedAt ownerNode indexNode value rest machine between known owner index target
      ownerEnds indexEnds resolved bound =>
      rw [evaluate_form]
      refine (congrFun (assignment_indexed _ ownerNode indexNode _) machine).trans ?_
      refine (Action.bind_of_done ownerEnds).trans ((Action.bind_of_done indexEnds).trans ?_)
      refine assignIndexed_of_left resolved (assignTo_of_left ?_ signals)
      rintro name (same | ⟨position, same⟩)
      · subst same
        exact absurd resolved (indexTarget?_ne_name name)
      · exact bound name position same
  | chooses => exact Action.bind_of_left signals
  | chosen ended truthy =>
      refine (choice_of_done ended).trans ?_
      rw [if_pos truthy]
      exact signals
  | otherwise ended falsy =>
      refine (choice_of_done ended).trans ?_
      rw [if_neg (by simp [falsy])]
      exact signals
  | returned => exact Action.bind_of_left signals
  | loops rounds enough =>
      exact Action.bind_of_left (rounds_of_condition_left rounds enough signals)
  | repeated rounds enough ended truthy allowed =>
      exact Action.bind_of_left
        (rounds_of_body_left rounds enough ended truthy allowed signals)
  | item passes => exact Action.bind_of_left (all_of_left passes signals)
  | indexed passes within =>
      exact Action.bind_of_left (operandPair_of_left passes within signals)
  | compared meaning passes within =>
      rw [evaluate_form]
      simp only [form, meaning]
      exact Action.bind_of_left (operandPair_of_left passes within signals)
  | computed meaning passes within =>
      rw [evaluate_form]
      simp only [form, meaning]
      exact Action.bind_of_left (operandPair_of_left passes within signals)
  | printed passes => exact Action.bind_of_left (allRendered_of_left passes signals)
  | actual meaning bound callable passes within =>
      rw [evaluate_form]
      simp only [form, meaning]
      rw [nameForm_of_function bound callable]
      exact Action.bind_of_left (actuals_of_left passes within signals)

/-- Only the assigned value can leave an assignment to an index form by a return signal. -/
theorem assignIndexed_returning
    {evaluate : Evaluator}
    {operands : List Node}
    {node ownerNode : Node}
    {owner index cell : Cell}
    {machine after : Machine}
    (signals : assignIndexed evaluate operands node ownerNode owner index machine =
      .left (.returning cell) after) :
    operand evaluate operands 1 machine = .left (.returning cell) after := by
  simp only [assignIndexed, Action.look, Action.bind_apply] at signals
  cases resolved : indexTarget? machine.heap ownerNode owner index with
  | none =>
      rw [resolved] at signals
      cases signals
  | some target =>
      rw [resolved] at signals
      rcases Action.bind_eq_left_iff.mp signals with assigned | ⟨_, _, _, inNothing⟩
      · exact operand_of_assignTo_returning assigned
      · cases inNothing

end Evaluation

open Evaluation

/--
A return signal in an operand that a form waits for leaves the form at once, on
the machine that the operand leaves behind.  A return signal in the owner or the
index of a target to be assigned does not: the assignment goes on with the cell
that the signal carries, and only its value can leave it by a return signal.
-/
theorem return_signal_in_operand
    (limits : Limits)
    (fuel : Nat) :
    (∀ node machine operandNode between cell after,
      Awaits limits fuel node machine operandNode between →
      evaluate limits fuel operandNode between = .left (.returning cell) after →
      evaluate limits (fuel + 1) node machine = .left (.returning cell) after) ∧
    ∀ ownerNode indexNode rest machine,
      let target := Node.form "index" [ownerNode, indexNode]
      let assigning := evaluate limits (fuel + 1) (.form "set" (target :: rest))
      let goOn := assignIndexed (evaluate limits fuel) (target :: rest) target ownerNode
      (∀ owner between,
        evaluate limits fuel ownerNode machine = .left (.returning owner) between →
        assigning machine =
          (Action.catchReturn (evaluate limits fuel indexNode) >>= goOn owner) between) ∧
      ∀ owner between,
        Action.catchReturn (evaluate limits fuel ownerNode) machine = .done owner between →
        (∀ index known,
          evaluate limits fuel indexNode between = .left (.returning index) known →
          assigning machine = goOn owner index known) ∧
        ∀ index known cell after,
          Action.catchReturn (evaluate limits fuel indexNode) between = .done index known →
          assigning machine = .left (.returning cell) after →
          operand (evaluate limits fuel) (target :: rest) 1 known =
            .left (.returning cell) after := by
  refine ⟨fun _ _ _ _ _ _ awaits signals => awaits.returning signals, ?_⟩
  intro ownerNode indexNode rest machine target assigning goOn
  have unfolded : assigning machine =
      (Action.catchReturn (evaluate limits fuel ownerNode) >>= fun owner =>
        Action.catchReturn (evaluate limits fuel indexNode) >>= goOn owner) machine :=
    congrFun (assignment_indexed (evaluate limits fuel) ownerNode indexNode rest) machine
  have ownerKnown {owner : Cell} {between : Machine}
      (ended : Action.catchReturn (evaluate limits fuel ownerNode) machine =
        .done owner between) :
      assigning machine =
        (Action.catchReturn (evaluate limits fuel indexNode) >>= goOn owner) between :=
    unfolded.trans (Action.bind_of_done ended)
  have bothKnown {owner index : Cell} {between known : Machine}
      (ownerEnds : Action.catchReturn (evaluate limits fuel ownerNode) machine =
        .done owner between)
      (indexEnds : Action.catchReturn (evaluate limits fuel indexNode) between =
        .done index known) :
      assigning machine = goOn owner index known :=
    (ownerKnown ownerEnds).trans (Action.bind_of_done indexEnds)
  refine ⟨fun owner between signals =>
    ownerKnown (Action.catchReturn_of_returning signals), ?_⟩
  intro owner between ownerEnds
  refine ⟨fun index known signals =>
    bothKnown ownerEnds (Action.catchReturn_of_returning signals), ?_⟩
  intro index known cell after indexEnds left
  rw [bothKnown ownerEnds indexEnds] at left
  exact assignIndexed_returning left

/--
A program that returns inside the target of an assignment goes on: the assignment
writes a slot, although its operand has raised a return signal.
-/
theorem assignment_goes_on_after_return :
    let named := Node.leaf (.word "l")
    let returning := Node.form "return" [.leaf (.number 0)]
    let target := Node.form "index" [named, returning]
    let assigning := Node.form "set" [target, .leaf (.number 9)]
    let list := Node.form "list" [.leaf (.number 1), .leaf (.number 2)]
    (Program.execute .unlimited 12
      [.form "let" [named, list], assigning, .form "index" [named, .leaf (.number 0)]]
      (Machine.start none)).value? = some (.integer 9) ∧
    ∃ signal returned ended written,
      let machine : Machine :=
        { heap := { values := #[.integer 1, .integer 2, .list [⟨0⟩, ⟨1⟩]] }
          frames := FrameStack.global.declare "l" ⟨2⟩
          sink := Sink.start none }
      evaluate .unlimited 3 returning machine = .left (.returning signal) returned ∧
      evaluate .unlimited 4 assigning machine = .done ended written ∧
      written.heap.read ⟨0⟩ = .integer 9 := by
  refine ⟨rfl, _, _, _, _, rfl, rfl, rfl⟩

end CellScript
