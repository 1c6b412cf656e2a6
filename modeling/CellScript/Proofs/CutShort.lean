import CellScript.Proofs.ReturnSignals

namespace CellScript

/-!
# Where evaluation is cut short

Only two things cut an evaluation short: its fuel is used up, or a loop would go
round more often than its cap allows.  Neither is taken back on the way out.  So
an evaluation that is cut short has come to a loop that was cut short itself, or
to a node for which there was no fuel at all.
-/

/-- What cuts a computation short. -/
inductive Cut where
  /-- The fuel is used up. -/
  | fuel
  /-- A loop went on after as many rounds as allowed, and left this heap and sink. -/
  | cap (limit : Nat) (heap : Heap) (sink : Sink)

/-- A computation is cut short. -/
inductive Ending.IsCut {α : Type} : Cut → Ending α → Prop where
  | fuel : IsCut .fuel .unfinished
  | cap
      {limit : Nat}
      {machine : Machine} :
      IsCut (.cap limit machine.heap machine.sink)
        (.left (.failing (.tooManyIterations limit)) machine)

namespace Action

variable {α β : Type} {cut : Cut} {machine : Machine}

/-- Of two computations in a row, the first is cut short, or it ends and the second is. -/
theorem isCut_bind
    {action : Action α}
    {next : α → Action β}
    (isCut : ((action >>= next) machine).IsCut cut) :
    (action machine).IsCut cut ∨
      ∃ value between,
        action machine = .done value between ∧ (next value between).IsCut cut := by
  rw [bind_apply] at isCut
  cases ended : action machine with
  | done value between =>
      rw [ended] at isCut
      exact .inr ⟨value, between, rfl, isCut⟩
  | left exit between =>
      rw [ended] at isCut
      cases isCut
      exact .inl .cap
  | unfinished =>
      rw [ended] at isCut
      cases isCut
      exact .inl .fuel

/-- Dropping a frame on the way out does not change what has cut the inside short. -/
theorem isCut_inFrame
    {action : Action α}
    (isCut : (inFrame action machine).IsCut cut) :
    (action (machine.withFrames FrameStack.push)).IsCut cut := by
  unfold inFrame at isCut
  cases ended : action (machine.withFrames FrameStack.push) with
  | done value between =>
      rw [ended] at isCut
      cases isCut
  | left exit between =>
      rw [ended] at isCut
      cases isCut
      show Ending.IsCut (.cap _ between.heap between.sink) _
      exact .cap
  | unfinished =>
      rw [ended] at isCut
      cases isCut
      exact .fuel

/-- Being cut short is no return signal, so it is not caught. -/
theorem isCut_catchReturn
    {action : Action Cell}
    (isCut : (catchReturn action machine).IsCut cut) :
    (action machine).IsCut cut := by
  unfold catchReturn at isCut
  cases ended : action machine with
  | done value between =>
      rw [ended] at isCut
      cases isCut
  | left exit between =>
      rw [ended] at isCut
      cases exit with
      | returning cell => cases isCut
      | failing fault => exact isCut
  | unfinished =>
      rw [ended] at isCut
      exact isCut

/-- What has come to its end is not cut short. -/
theorem not_isCut_of_done
    {ending : Ending α}
    (ended : ∃ value after, ending = .done value after) :
    ¬ending.IsCut cut := by
  obtain ⟨value, after, rfl⟩ := ended
  nofun

/-- What is never cut short leaves only what comes before it to be cut short. -/
theorem isCut_of_bind
    {action : Action α}
    {next : α → Action β}
    (total : ∀ value between, ¬(next value between).IsCut cut)
    (isCut : ((action >>= next) machine).IsCut cut) :
    (action machine).IsCut cut := by
  rcases isCut_bind isCut with inAction | ⟨value, between, _, inNext⟩
  · exact inAction
  · exact absurd inNext (total value between)

/-- What always comes to its end leaves only what comes before it to be cut short. -/
theorem isCut_of_bind_done
    {action : Action α}
    {next : α → Action β}
    (ends : ∀ value between, ∃ result after, next value between = .done result after)
    (isCut : ((action >>= next) machine).IsCut cut) :
    (action machine).IsCut cut :=
  isCut_of_bind (fun value between => not_isCut_of_done (ends value between)) isCut

theorem isCut_look
    {view : Machine → α}
    {next : α → Action β}
    (isCut : ((look view >>= next) machine).IsCut cut) :
    (next (view machine) machine).IsCut cut :=
  isCut

end Action

namespace Evaluation

/--
Evaluating a node from one machine comes to evaluate another node on another
machine: an operand that a form waits for, a member of a sequence, a part of a
target, or the body of a function that is called.
-/
inductive Enters (limits : Limits) (fuel : Nat) :
    Node → Machine → Node → Machine → Prop where
  | operand
      {form node : Node}
      {machine between : Machine}
      (awaits : Awaits limits fuel form machine node between) :
      Enters limits fuel form machine node between
  | member
      {earlier later : List Node}
      {node : Node}
      {machine between : Machine}
      (isSequence : Node.isSequence (earlier ++ node :: later) = true)
      (passes : Passes (evaluate limits fuel) earlier
        (machine.withFrames FrameStack.push) between) :
      Enters limits fuel (.block (earlier ++ node :: later)) machine node between
  | owner
      {ownerNode indexNode : Node}
      {rest : List Node}
      {machine : Machine} :
      Enters limits fuel
        (.form "set" (.form "index" [ownerNode, indexNode] :: rest))
        machine ownerNode machine
  | index
      {ownerNode indexNode : Node}
      {rest : List Node}
      {owner : Cell}
      {machine between : Machine}
      (ownerEnds : Action.catchReturn (evaluate limits fuel ownerNode) machine =
        .done owner between) :
      Enters limits fuel
        (.form "set" (.form "index" [ownerNode, indexNode] :: rest))
        machine indexNode between
  | body
      {word name : String}
      {function : Cell}
      {parameters : List String}
      {body : Node}
      {operands : List Node}
      {bindings : List (String × Cell)}
      {machine between entered : Machine}
      (meaning : HeadWord.ofWord word = .name name)
      (bound : machine.frames.lookup? name = some function)
      (callable : machine.heap.read function = .function parameters body)
      (known : actuals (evaluate limits fuel) parameters operands machine =
        .done bindings between)
      (declared : Action.declareAll bindings (between.withFrames FrameStack.push) =
        .done () entered) :
      Enters limits fuel (.form word operands) machine body entered

/-! ## Nodes in turn -/

section

variable {evaluate : Evaluator} {cut : Cut} {machine : Machine}

/-- One of the first nodes is cut short, and those before it have come to their ends. -/
def CutsAmong
    (evaluate : Evaluator)
    (cut : Cut)
    (count : Nat)
    (nodes : List Node)
    (machine : Machine) : Prop :=
  ∃ earlier node later between,
    nodes = earlier ++ node :: later ∧
      earlier.length < count ∧
      Passes evaluate earlier machine between ∧
      (evaluate node between).IsCut cut

theorem CutsAmong.head
    {count : Nat}
    {node : Node}
    {rest : List Node}
    (isCut : (evaluate node machine).IsCut cut) :
    CutsAmong evaluate cut (count + 1) (node :: rest) machine :=
  ⟨[], node, rest, machine, rfl, Nat.succ_pos count, .nil machine, isCut⟩

/-- A cut among later nodes is one among all of them once the first has come to its end. -/
theorem CutsAmong.tail
    {count : Nat}
    {node : Node}
    {rest : List Node}
    {cell : Cell}
    {between : Machine}
    (ended : evaluate node machine = .done cell between)
    (inRest : CutsAmong evaluate cut count rest between) :
    CutsAmong evaluate cut (count + 1) (node :: rest) machine := by
  obtain ⟨earlier, inner, later, stopped, rfl, within, passes, isCut⟩ := inRest
  exact ⟨node :: earlier, inner, later, stopped, rfl, Nat.succ_lt_succ within,
    .cons ended passes, isCut⟩

/-- Either the first node is cut short, or what is done once it has come to its end is. -/
theorem CutsAmong.of_bind
    {α : Type}
    {count : Nat}
    {node : Node}
    {rest : List Node}
    {next : Cell → Action α}
    (isCut : ((evaluate node >>= next) machine).IsCut cut)
    (afterwards : ∀ {cell between},
      (next cell between).IsCut cut → CutsAmong evaluate cut count rest between) :
    CutsAmong evaluate cut (count + 1) (node :: rest) machine := by
  rcases Action.isCut_bind isCut with inNode | ⟨cell, between, ended, inNext⟩
  · exact .head inNode
  · exact .tail ended (afterwards inNext)

/-- Members evaluated for the last of them are cut short in one of them. -/
theorem cutsAmong_allInOrder
    {nodes : List Node}
    (isCut : (allInOrder evaluate nodes machine).IsCut cut) :
    CutsAmong evaluate cut nodes.length nodes machine := by
  induction nodes generalizing machine with
  | nil => cases isCut
  | cons node rest inductionHypothesis => exact .of_bind isCut inductionHypothesis

theorem cutsAmong_lastOf
    {nodes : List Node}
    {last : Cell}
    (isCut : (lastOf evaluate last nodes machine).IsCut cut) :
    CutsAmong evaluate cut nodes.length nodes machine := by
  induction nodes generalizing machine last with
  | nil => cases isCut
  | cons node rest inductionHypothesis => exact .of_bind isCut inductionHypothesis

theorem cutsAmong_all
    {nodes : List Node}
    (isCut : (all evaluate nodes machine).IsCut cut) :
    CutsAmong evaluate cut nodes.length nodes machine := by
  induction nodes generalizing machine with
  | nil => cases isCut
  | cons node rest inductionHypothesis =>
      refine .of_bind isCut fun others => inductionHypothesis ?_
      exact Action.isCut_of_bind_done (fun _ _ => ⟨_, _, rfl⟩) others

theorem cutsAmong_allRendered
    {nodes : List Node}
    (isCut : (allRendered evaluate nodes machine).IsCut cut) :
    CutsAmong evaluate cut nodes.length nodes machine := by
  induction nodes generalizing machine with
  | nil => cases isCut
  | cons node rest inductionHypothesis =>
      refine .of_bind isCut fun others => inductionHypothesis ?_
      exact Action.isCut_of_bind_done (fun _ _ => ⟨_, _, rfl⟩) (Action.isCut_look others)

/-- The operands of a call are cut short among those that have parameters. -/
theorem cutsAmong_actuals
    {parameters : List String}
    {operands : List Node}
    (isCut : (actuals evaluate parameters operands machine).IsCut cut) :
    CutsAmong evaluate cut parameters.length operands machine := by
  induction parameters generalizing operands machine with
  | nil => cases isCut
  | cons parameter rest inductionHypothesis =>
      have inRest {operands : List Node} {cell : Cell} {between : Machine}
          (others : ((actuals evaluate rest operands >>= fun bindings =>
            pure ((parameter, cell) :: bindings)) between).IsCut cut) :
          CutsAmong evaluate cut rest.length operands between :=
        inductionHypothesis (Action.isCut_of_bind_done (fun _ _ => ⟨_, _, rfl⟩) others)
      cases operands with
      | cons node later => exact .of_bind isCut inRest
      | nil =>
          -- Without operands there is nothing that could be cut short.
          obtain ⟨earlier, _, _, _, split, _⟩ := inRest isCut
          cases earlier <;> cases split

/-- An operand that is cut short is there. -/
theorem isCut_operand
    {operands : List Node}
    {position : Nat}
    (isCut : (operand evaluate operands position machine).IsCut cut) :
    ∃ node, operands[position]? = some node ∧ (evaluate node machine).IsCut cut := by
  unfold operand at isCut
  cases found : operands[position]? with
  | none =>
      rw [found] at isCut
      cases isCut
  | some node =>
      rw [found] at isCut
      exact ⟨node, rfl, isCut⟩

/-- A first operand that is cut short is the node at the front. -/
theorem isCut_firstOperand
    {operands : List Node}
    (isCut : (operand evaluate operands 0 machine).IsCut cut) :
    ∃ node rest, operands = node :: rest ∧ (evaluate node machine).IsCut cut := by
  obtain ⟨node, atFirst, inNode⟩ := isCut_operand isCut
  cases operands with
  | nil => cases atFirst
  | cons first rest =>
      cases atFirst
      exact ⟨node, rest, rfl, inNode⟩

theorem isCut_secondOperand
    {first : Node}
    {others : List Node}
    (isCut : (operand evaluate (first :: others) 1 machine).IsCut cut) :
    ∃ node rest, others = node :: rest ∧ (evaluate node machine).IsCut cut :=
  isCut_firstOperand isCut

/-- An operator is cut short in one of its first two operands. -/
theorem cutsAmong_operandPair
    {operands : List Node}
    (isCut : (operandPair evaluate operands machine).IsCut cut) :
    CutsAmong evaluate cut 2 operands machine := by
  cases operands with
  | nil => cases isCut
  | cons first rest =>
      refine .of_bind isCut fun others => ?_
      obtain ⟨second, later, rfl, inSecond⟩ :=
        isCut_secondOperand (Action.isCut_of_bind_done (fun _ _ => ⟨_, _, rfl⟩) others)
      exact .head inSecond

end

/-! ## Loops -/

section

variable {limit : Option Nat} {condition body : Action Cell}

/-- A loop makes no more rounds than its cap allows. -/
theorem RoundsMade.le
    {made : Nat}
    {before after : Machine}
    (roundsMade : RoundsMade limit condition body made before after) :
    ∀ bound ∈ limit, made ≤ bound := by
  cases roundsMade with
  | none => exact fun bound _ => Nat.zero_le bound
  | another _ _ _ allowed _ => exact allowed

/-- What cuts short a loop that has made some rounds already. -/
inductive RoundsCut
    (limit : Option Nat)
    (condition body : Action Cell)
    (fuel : Nat)
    (before : Machine) : Cut → Prop where
  /-- The condition is cut short. -/
  | inCondition
      {made : Nat}
      {between : Machine}
      {cut : Cut}
      (roundsMade : RoundsMade limit condition body made before between)
      (enough : made < fuel)
      (isCut : (condition between).IsCut cut) :
      RoundsCut limit condition body fuel before cut
  /-- The body is cut short. -/
  | inBody
      {made : Nat}
      {between tested : Machine}
      {cell : Cell}
      {cut : Cut}
      (roundsMade : RoundsMade limit condition body made before between)
      (enough : made < fuel)
      (holds : condition between = .done cell tested)
      (truthy : (tested.heap.read cell).isTruthy = true)
      (allowed : ∀ bound ∈ limit, made < bound)
      (isCut : (body tested).IsCut cut) :
      RoundsCut limit condition body fuel before cut
  /-- There is no fuel for another round. -/
  | fuel
      {between : Machine}
      (roundsMade : RoundsMade limit condition body fuel before between) :
      RoundsCut limit condition body fuel before .fuel
  /-- All rounds that are allowed are made, and the condition is truthy once more. -/
  | cap
      {bound : Nat}
      {between tested : Machine}
      {cell : Cell}
      (isBound : limit = some bound)
      (roundsMade : RoundsMade limit condition body bound before between)
      (holds : condition between = .done cell tested)
      (truthy : (tested.heap.read cell).isTruthy = true) :
      RoundsCut limit condition body fuel before (.cap bound tested.heap tested.sink)

/-- Rounds that are cut short are cut short in one of the ways there are for it. -/
theorem roundsCut_of_isCut
    {fuel made : Nat}
    {before between : Machine}
    {cut : Cut}
    (roundsMade : RoundsMade limit condition body made before between)
    (isCut : (rounds limit condition body fuel made between).IsCut cut) :
    RoundsCut limit condition body (made + fuel) before cut := by
  induction fuel generalizing made between with
  | zero =>
      cases isCut
      exact .fuel roundsMade
  | succ fuel inductionHypothesis =>
      have enough : made < made + (fuel + 1) := by omega
      rcases Action.isCut_bind isCut with inCondition | ⟨cell, tested, holds, others⟩
      · exact .inCondition roundsMade enough inCondition
      · have others := Action.isCut_look others
        split at others
        · next truthy =>
            cases bites : limit.filter (· < made + 1) with
            | some bound =>
                rw [bites] at others
                obtain ⟨isBound, exceeds⟩ := Option.filter_eq_some_iff.mp bites
                have reached : made = bound := by
                  have := roundsMade.le bound isBound
                  have : bound < made + 1 := by simpa using exceeds
                  omega
                subst reached
                cases others
                exact .cap isBound roundsMade holds truthy
            | none =>
                rw [bites] at others
                have allowed := filter_lt_eq_none_iff.mp bites
                rcases Action.isCut_bind others with inBody | ⟨_, after, ended, inRest⟩
                · exact .inBody roundsMade enough holds truthy allowed inBody
                · have again := inductionHypothesis
                    (.another roundsMade holds truthy allowed ended) inRest
                  rwa [Nat.add_right_comm] at again
        · cases others

end

/-! ## Forms -/

/-- Evaluating a node comes to evaluate another one, which is cut short. -/
def EntersCut
    (limits : Limits)
    (fuel : Nat)
    (node : Node)
    (machine : Machine)
    (cut : Cut) : Prop :=
  ∃ inner between,
    Enters limits fuel node machine inner between ∧
      (CellScript.evaluate limits fuel inner between).IsCut cut

/-- A loop with some operands is cut short itself, and not in its operands. -/
inductive LoopCut
    (limits : Limits)
    (fuel : Nat)
    (operands : List Node)
    (machine : Machine) : Cut → Prop where
  /-- There is no fuel for another round. -/
  | fuel
      {between : Machine}
      (roundsMade : RoundsMade limits.maxIterations
        (operand (evaluate limits fuel) operands 0)
        (operand (evaluate limits fuel) operands 1) fuel machine between) :
      LoopCut limits fuel operands machine .fuel
  /-- All rounds that are allowed are made, and the condition is truthy once more. -/
  | cap
      {bound : Nat}
      {between tested : Machine}
      {cell : Cell}
      (isBound : limits.maxIterations = some bound)
      (roundsMade : RoundsMade limits.maxIterations
        (operand (evaluate limits fuel) operands 0)
        (operand (evaluate limits fuel) operands 1) bound machine between)
      (holds : operand (evaluate limits fuel) operands 0 between = .done cell tested)
      (truthy : (tested.heap.read cell).isTruthy = true) :
      LoopCut limits fuel operands machine (.cap bound tested.heap tested.sink)

section

variable {limits : Limits} {fuel : Nat} {machine : Machine} {cut : Cut}
variable {operands : List Node}

/-- A name without a meaning is a fault, so what is cut short comes after one with a meaning. -/
theorem isCut_lookupDeclared_bind
    {α : Type}
    {name : String}
    {next : Cell → Action α}
    (isCut : ((lookupDeclared name >>= next) machine).IsCut cut) :
    ∃ cell, machine.frames.lookup? name = some cell ∧ (next cell machine).IsCut cut := by
  cases bound : machine.frames.lookup? name with
  | none =>
      rw [Action.bind_of_left (lookupDeclared_of_unbound bound)] at isCut
      cases isCut
  | some cell =>
      rw [Action.bind_of_done (lookupDeclared_of_bound bound)] at isCut
      exact ⟨cell, rfl, isCut⟩

theorem declareAll_ends
    (bindings : List (String × Cell))
    (machine : Machine) :
    ∃ after, Action.declareAll bindings machine = .done () after := by
  induction bindings generalizing machine with
  | nil => exact ⟨machine, rfl⟩
  | cons binding rest inductionHypothesis => exact inductionHypothesis _

/-- Leaves always come to their ends, whatever they mean. -/
theorem leafValue_ends
    (leaf : Leaf)
    (machine : Machine) :
    ∃ cell after, leafValue leaf machine = .done cell after := by
  cases leaf with
  | text | number => exact ⟨_, _, rfl⟩
  | word name =>
      by_cases absent : name = "none"
      · rw [leafValue, if_pos absent]
        exact ⟨_, _, rfl⟩
      · rw [leafValue, if_neg absent]
        simp only [Action.lookup?, Action.contents, Action.look, Action.bind_apply]
        cases machine.frames.lookup? name with
        | none => exact ⟨_, _, rfl⟩
        | some cell =>
            simp only [Action.look, Action.bind_apply]
            split
            · exact ⟨_, _, rfl⟩
            · exact ⟨_, _, rfl⟩

/-- A word that is bound to no function comes to the cell that it means. -/
theorem leafValue_of_bound
    {word : String}
    {cell : Cell}
    (named : word ≠ "none")
    (bound : machine.frames.lookup? word = some cell)
    (noFunction : (machine.heap.read cell).isFunction = false) :
    leafValue (.word word) machine = .done cell machine := by
  simp only [leafValue, if_neg named, Action.lookup?, Action.contents, Action.look,
    Action.bind_apply, bound, noFunction]
  rfl

/-- A word comes to the cell that it means, or it makes a cell without a value. -/
theorem leafValue_word_cases
    (word : String)
    (machine : Machine) :
    (∃ cell,
      machine.frames.lookup? word = some cell ∧
        leafValue (.word word) machine = .done cell machine) ∨
      leafValue (.word word) machine = Action.nothing machine := by
  by_cases named : word = "none"
  · exact .inr (by rw [leafValue, if_pos named])
  · cases bound : machine.frames.lookup? word with
    | none =>
        refine .inr ?_
        simp only [leafValue, if_neg named, Action.lookup?, Action.look, Action.bind_apply, bound]
    | some cell =>
        cases isFunction : (machine.heap.read cell).isFunction with
        | false => exact .inl ⟨cell, rfl, leafValue_of_bound named bound isFunction⟩
        | true =>
            refine .inr ?_
            simp only [leafValue, if_neg named, Action.lookup?, Action.contents, Action.look,
              Action.bind_apply, bound, isFunction]
            rfl

/-- What a function form ends in is a value or a fault of its parameters. -/
theorem not_isCut_functionValue
    (operands : List Node)
    (machine : Machine) :
    ¬(functionValue operands machine).IsCut cut := by
  have faults {nodes : List Node} {fault : Fault}
      (failed : parameterNames nodes = .error fault) :
      ∃ parameter, fault = .invalidParameter parameter := by
    induction nodes with
    | nil => cases failed
    | cons node rest inductionHypothesis =>
        unfold parameterNames at failed
        split at failed
        · cases failed
          exact ⟨_, rfl⟩
        · cases read : parameterNames rest with
          | ok names =>
              rw [read] at failed
              cases failed
          | error inner =>
              rw [read] at failed
              cases failed
              exact inductionHypothesis read
  intro isCut
  rw [functionValue] at isCut
  cases read : parametersOf operands.head? with
  | ok parameters =>
      rw [read] at isCut
      cases isCut
  | error fault =>
      rw [read] at isCut
      unfold parametersOf at read
      split at read
      · cases read
      · obtain ⟨parameter, rfl⟩ := faults read
        cases isCut
      · cases read
        cases isCut

theorem eq_word_of_word?
    {node : Node}
    {name : String}
    (isName : node.word? = some name) :
    node = .leaf (.word name) := by
  cases node with
  | leaf leaf =>
      cases leaf with
      | word =>
          cases isName
          rfl
      | text | number => cases isName
  | block => cases isName

theorem entersCut_declaration
    (isCut : (declaration (evaluate limits fuel) operands machine).IsCut cut) :
    EntersCut limits fuel (.form "let" operands) machine cut := by
  cases operands with
  | nil => cases isCut
  | cons target rest =>
      cases isName : target.word? with
      | none =>
          simp only [declaration, List.head?_cons, targetName, isName] at isCut
          cases isCut
      | some name =>
          obtain rfl := eq_word_of_word? isName
          obtain ⟨value, later, rfl, inValue⟩ :=
            isCut_secondOperand (Action.isCut_of_bind_done (fun _ _ => ⟨_, _, rfl⟩) isCut)
          exact ⟨value, machine, .operand .declared, inValue⟩

/-- Assigning is cut short in its value only, and not before the target is found to exist. -/
theorem isCut_assignTo
    {target : Target}
    {first : Node}
    {others : List Node}
    (isCut : (assignTo (evaluate limits fuel) (first :: others) target machine).IsCut cut) :
    ∃ value rest,
      others = value :: rest ∧
        (CellScript.evaluate limits fuel value machine).IsCut cut ∧
        ∀ name, (target = .name name ∨ ∃ position, target = .position name position) →
          ∃ cell, machine.frames.lookup? name = some cell := by
  have inValue {writes : Cell → Action Unit}
      (ends : ∀ value between, ∃ after, writes value between = .done () after)
      (isCut :
        ((operand (evaluate limits fuel) (first :: others) 1 >>= writes) machine).IsCut cut) :
      ∃ value rest,
        others = value :: rest ∧ (CellScript.evaluate limits fuel value machine).IsCut cut :=
    isCut_secondOperand
      (Action.isCut_of_bind_done (fun value between => ⟨(), ends value between⟩) isCut)
  cases target with
  | slot cell =>
      obtain ⟨value, rest, split, isCut⟩ := inValue (fun _ _ => ⟨_, rfl⟩) isCut
      refine ⟨value, rest, split, isCut, ?_⟩
      rintro name (⟨⟨⟩⟩ | ⟨_, ⟨⟩⟩)
  | name name =>
      obtain ⟨cell, bound, isCut⟩ := isCut_lookupDeclared_bind isCut
      obtain ⟨value, rest, split, isCut⟩ := inValue (fun _ _ => ⟨_, rfl⟩) isCut
      refine ⟨value, rest, split, isCut, ?_⟩
      rintro other (⟨⟨⟩⟩ | ⟨_, ⟨⟩⟩)
      exact ⟨cell, bound⟩
  | position name position =>
      obtain ⟨cell, bound, isCut⟩ := isCut_lookupDeclared_bind isCut
      obtain ⟨value, rest, split, isCut⟩ := inValue (fun _ _ => ⟨_, rfl⟩) isCut
      refine ⟨value, rest, split, isCut, ?_⟩
      rintro other (⟨⟨⟩⟩ | ⟨_, ⟨⟩⟩)
      exact ⟨cell, bound⟩

/-- Only index forms with just an owner and an index are targets by index. -/
theorem form_of_indexParts?
    {node ownerNode indexNode : Node}
    (isIndex : indexParts? node = some (ownerNode, indexNode)) :
    node = .form "index" [ownerNode, indexNode] := by
  unfold indexParts? at isIndex
  split at isIndex
  · split at isIndex
    · next isWord =>
        cases isIndex
        rw [isWord]
        rfl
    · cases isIndex
  · cases isIndex

/-- An indexed assignment is cut short in its owner, its index or its value. -/
theorem entersCut_assignment_indexed
    {ownerNode indexNode : Node}
    {others : List Node}
    (isCut :
      (assignment (evaluate limits fuel) (.form "index" [ownerNode, indexNode] :: others)
        machine).IsCut cut) :
    EntersCut limits fuel (.form "set" (.form "index" [ownerNode, indexNode] :: others))
      machine cut := by
  rw [assignment_indexed] at isCut
  rcases Action.isCut_bind isCut with inOwner | ⟨owner, between, ownerEnds, isCut⟩
  · exact ⟨_, _, .owner, Action.isCut_catchReturn inOwner⟩
  · rcases Action.isCut_bind isCut with inIndex | ⟨index, known, indexEnds, isCut⟩
    · exact ⟨_, _, .index ownerEnds, Action.isCut_catchReturn inIndex⟩
    · have isCut := Action.isCut_look isCut
      cases resolved : indexTarget? known.heap ownerNode owner index with
      | none =>
          rw [resolved] at isCut
          cases isCut
      | some target =>
          rw [resolved] at isCut
          obtain ⟨value, rest, rfl, inValue, bound⟩ :=
            isCut_assignTo (Action.isCut_of_bind_done (fun _ _ => ⟨_, _, rfl⟩) isCut)
          have isBound name position (same : target = .position name position) :=
            bound name (.inr ⟨position, same⟩)
          exact ⟨value, known,
            .operand (.assignedAt ownerEnds indexEnds resolved isBound), inValue⟩

/-- An assignment is cut short in its target or in its value. -/
theorem entersCut_assignment
    (isCut : (assignment (evaluate limits fuel) operands machine).IsCut cut) :
    EntersCut limits fuel (.form "set" operands) machine cut := by
  cases operands with
  | nil => cases isCut
  | cons target others =>
      cases parts : indexParts? target with
      | some pair =>
          obtain rfl := form_of_indexParts? parts
          exact entersCut_assignment_indexed isCut
      | none =>
          cases isName : target.word? with
          | none =>
              simp only [assignment, List.head?_cons, resolveTarget, parts, targetName,
                isName] at isCut
              cases isCut
          | some name =>
              obtain rfl := eq_word_of_word? isName
              have inAssigning :
                  (assignTo (evaluate limits fuel) (.leaf (.word name) :: others) (.name name)
                    machine).IsCut cut :=
                Action.isCut_of_bind_done (fun _ _ => ⟨_, _, rfl⟩) isCut
              obtain ⟨value, rest, rfl, inValue, bound⟩ := isCut_assignTo inAssigning
              obtain ⟨cell, isBound⟩ := bound name (.inl rfl)
              exact ⟨value, machine, .operand (.assigned isBound), inValue⟩

theorem entersCut_choice
    (isCut : (choice (evaluate limits fuel) operands machine).IsCut cut) :
    EntersCut limits fuel (.form "if" operands) machine cut := by
  rcases Action.isCut_bind isCut with inCondition | ⟨cell, tested, ended, others⟩
  · obtain ⟨condition, rest, rfl, inCondition⟩ := isCut_firstOperand inCondition
    exact ⟨condition, machine, .operand .chooses, inCondition⟩
  · have others := Action.isCut_look others
    split at others
    · next truthy =>
        obtain ⟨chosen, atChosen, inChosen⟩ := isCut_operand others
        match operands, atChosen with
        | _ :: _ :: _, rfl =>
            exact ⟨chosen, tested, .operand (.chosen ended truthy), inChosen⟩
    · next falsy =>
        obtain ⟨chosen, atChosen, inChosen⟩ := isCut_operand others
        match operands, atChosen with
        | _ :: _ :: _ :: _, rfl =>
            exact ⟨chosen, tested,
              .operand (.otherwise ended (Bool.eq_false_iff.mpr falsy)), inChosen⟩

/-- A loop is cut short inside one of its operands, or as a loop. -/
theorem entersCut_loop
    (isCut : (loop limits fuel (evaluate limits fuel) operands machine).IsCut cut) :
    EntersCut limits fuel (.form "while" operands) machine cut ∨
      LoopCut limits fuel operands machine cut := by
  have inRounds := Action.isCut_of_bind_done (fun _ _ => ⟨_, _, rfl⟩) isCut
  have reason := roundsCut_of_isCut (.none machine) inRounds
  rw [Nat.zero_add] at reason
  cases reason with
  | inCondition roundsMade enough isCut =>
      obtain ⟨condition, rest, rfl, inCondition⟩ := isCut_firstOperand isCut
      exact .inl ⟨condition, _, .operand (.loops roundsMade enough), inCondition⟩
  | inBody roundsMade enough holds truthy allowed isCut =>
      cases operands with
      | nil => cases isCut
      | cons condition others =>
          obtain ⟨body, rest, rfl, inBody⟩ := isCut_secondOperand isCut
          exact .inl ⟨body, _,
            .operand (.repeated roundsMade enough holds truthy allowed), inBody⟩
  | fuel roundsMade => exact .inr (.fuel roundsMade)
  | cap isBound roundsMade holds truthy => exact .inr (.cap isBound roundsMade holds truthy)

/-- A form that waits for its first operands enters the one that is cut short. -/
theorem CutsAmong.entersCut
    {word : String}
    {count : Nat}
    (among : CutsAmong (evaluate limits fuel) cut count operands machine)
    (awaits : ∀ {earlier later node between},
      Passes (evaluate limits fuel) earlier machine between →
      earlier.length < count →
      Awaits limits fuel (.form word (earlier ++ node :: later)) machine node between) :
    EntersCut limits fuel (.form word operands) machine cut := by
  obtain ⟨earlier, node, later, between, rfl, within, passes, isCut⟩ := among
  exact ⟨node, between, .operand (awaits passes within), isCut⟩

/-- A call is cut short in an operand or in the body of the function. -/
theorem entersCut_nameForm
    {word name : String}
    (meaning : HeadWord.ofWord word = .name name)
    (isCut : (nameForm (evaluate limits fuel) operands name machine).IsCut cut) :
    EntersCut limits fuel (.form word operands) machine cut := by
  have others := Action.isCut_look isCut
  cases bound : machine.frames.lookup? name with
  | none =>
      rw [bound] at others
      cases others
  | some function =>
      rw [bound] at others
      have others := Action.isCut_look others
      cases callable : machine.heap.read function with
      | function parameters body =>
          rw [callable] at others
          rcases Action.isCut_bind others with inActuals | ⟨bindings, between, known, inCall⟩
          · exact (cutsAmong_actuals inActuals).entersCut fun passes within =>
              .actual meaning bound callable passes within
          · rcases Action.isCut_bind (Action.isCut_inFrame inCall) with
              inDeclaring | ⟨_, entered, declared, inBody⟩
            · exact absurd inDeclaring (Action.not_isCut_of_done ⟨_, declareAll_ends _ _⟩)
            · exact ⟨body, entered, .body meaning bound callable known declared,
                Action.isCut_catchReturn inBody⟩
      | none | boolean | integer | text | list =>
          rw [callable] at others
          cases others

/-- Access by index is cut short in the owner or in the index. -/
theorem entersCut_elementAt
    (isCut : (elementAt (evaluate limits fuel) operands machine).IsCut cut) :
    EntersCut limits fuel (.form "index" operands) machine cut := by
  refine (cutsAmong_operandPair (Action.isCut_of_bind ?_ isCut)).entersCut
    fun passes within => .indexed passes within
  rintro ⟨owner, index⟩ between isCut
  have others := Action.isCut_look isCut
  cases slot : between.heap.slot? owner index with
  | some cell =>
      rw [slot] at others
      cases others
  | none =>
      rw [slot] at others
      have others := Action.isCut_look others
      cases character : between.heap.character? owner index <;>
        rw [character] at others <;> cases others

/-- Printing a line may fail for lack of room, but it is not cut short. -/
theorem not_isCut_printLine_bind
    (line : String)
    (machine : Machine) :
    ¬((Action.printLine line >>= fun _ => Action.nothing) machine).IsCut cut := by
  intro isCut
  rcases Action.isCut_bind isCut with inPrint | ⟨_, _, _, inNothing⟩
  · simp only [Action.printLine] at inPrint
    split at inPrint
    · cases inPrint
    · cases inPrint
  · cases inNothing

/-- A keyword form is cut short in a node that it enters, unless it is a loop. -/
theorem entersCut_keywordForm
    {word : String}
    {keyword : Keyword}
    (spelled : Keyword.ofWord? word = some keyword)
    (isCut : (keywordForm limits fuel (evaluate limits fuel) operands keyword machine).IsCut
      cut) :
    EntersCut limits fuel (.form word operands) machine cut ∨
      word = "while" ∧ LoopCut limits fuel operands machine cut := by
  unfold Keyword.ofWord? at spelled
  split at spelled <;> cases spelled
  · exact .inl (entersCut_declaration isCut)
  · exact .inl (entersCut_assignment isCut)
  · exact absurd isCut (not_isCut_functionValue operands machine)
  · exact .inl (entersCut_choice isCut)
  · obtain ⟨value, rest, rfl, inValue⟩ :=
      isCut_firstOperand (Action.isCut_of_bind (fun _ _ isCut => by cases isCut) isCut)
    exact .inl ⟨value, machine, .operand .returned, inValue⟩
  · exact (entersCut_loop isCut).imp_right fun loopCut => ⟨rfl, loopCut⟩
  · have inAll := Action.isCut_of_bind_done (fun _ _ => ⟨_, _, rfl⟩) isCut
    exact .inl ((cutsAmong_all inAll).entersCut fun passes _ => .item passes)
  · cases isCut
  · exact .inl (entersCut_elementAt isCut)
  · have inAll := Action.isCut_of_bind (fun _ _ => not_isCut_printLine_bind _ _) isCut
    exact .inl ((cutsAmong_allRendered inAll).entersCut fun passes _ => .printed passes)

theorem entersCut_sequence
    {members : List Node}
    (isSequence : Node.isSequence members = true)
    (isCut : (sequence (evaluate limits fuel) members machine).IsCut cut) :
    EntersCut limits fuel (.block members) machine cut := by
  have inMembers :=
    Action.isCut_of_bind_done (fun _ _ => ⟨_, _, rfl⟩) (Action.isCut_inFrame isCut)
  obtain ⟨earlier, node, later, between, rfl, _, passes, isCut⟩ :=
    cutsAmong_allInOrder inMembers
  exact ⟨node, between, .member isSequence passes, isCut⟩

/-- An evaluation that is cut short comes to one that is, or is a loop that is cut short. -/
theorem isCut_origin
    {node : Node}
    (isCut : (CellScript.evaluate limits (fuel + 1) node machine).IsCut cut) :
    EntersCut limits fuel node machine cut ∨
      ∃ operands, node = .form "while" operands ∧ LoopCut limits fuel operands machine cut := by
  match node with
  | .leaf leaf => exact absurd isCut (Action.not_isCut_of_done (leafValue_ends leaf machine))
  | .block [] => exact .inl (entersCut_sequence rfl isCut)
  | .block (head :: operands) =>
      by_cases isSequence : Node.isSequence (head :: operands) = true
      · rw [CellScript.evaluate, step, if_pos isSequence] at isCut
        exact .inl (entersCut_sequence isSequence isCut)
      · rw [CellScript.evaluate, step, if_neg isSequence] at isCut
        match head with
        | .block members => cases isCut
        | .leaf (.text content) => cases isCut
        | .leaf (.number value) => cases isCut
        | .leaf (.word word) =>
            rw [form] at isCut
            cases meaning : HeadWord.ofWord word with
            | keyword keyword =>
                rw [meaning] at isCut
                refine (entersCut_keywordForm (word_of_keyword meaning) isCut).imp_right ?_
                rintro ⟨rfl, loopCut⟩
                exact ⟨operands, rfl, loopCut⟩
            | comparison operator =>
                rw [meaning] at isCut
                have inPair := Action.isCut_of_bind_done (fun _ _ => ⟨_, _, rfl⟩) isCut
                exact .inl ((cutsAmong_operandPair inPair).entersCut
                  fun passes within => .compared meaning passes within)
            | arithmetic operator =>
                rw [meaning] at isCut
                have inPair := Action.isCut_of_bind_done (fun _ _ => ⟨_, _, rfl⟩) isCut
                exact .inl ((cutsAmong_operandPair inPair).entersCut
                  fun passes within => .computed meaning passes within)
            | name name =>
                rw [meaning] at isCut
                exact .inl (entersCut_nameForm meaning isCut)

end

end Evaluation

namespace Program

/-- The machine on which the members of a program are evaluated, from the first one on. -/
def opened (machine : Machine) : Machine :=
  { machine.withFrames FrameStack.push with heap := (machine.heap.allocate .none).2 }

/-- A program that is cut short comes to a member that is. -/
theorem cutsAmong_of_isCut
    {limits : Limits}
    {fuel : Nat}
    {members : List Node}
    {machine : Machine}
    {cut : Cut}
    (isCut : (execute limits fuel members machine).IsCut cut) :
    Evaluation.CutsAmong (evaluate limits fuel) cut members.length members (opened machine) := by
  have disciplined : (body limits fuel members).Meets frameDiscipline :=
    frameDiscipline.lawful.programBody limits fuel fun _ _ => trivial
  have inScope : ((body limits fuel members).inScope machine).IsCut cut :=
    Action.isCut_of_bind_done (fun _ _ => ⟨_, _, rfl⟩) isCut
  rw [Action.inScope_eq_inFrame disciplined] at inScope
  exact Evaluation.cutsAmong_lastOf
    (Action.isCut_catchReturn (Action.isCut_inFrame inScope))

end Program

end CellScript
