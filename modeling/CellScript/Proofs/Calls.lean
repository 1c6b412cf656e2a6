import CellScript.Proofs.ClosedHeaps
import CellScript.Proofs.CutShort

namespace CellScript

/-!
# Calls

A call evaluates as many operands as the function has parameters, in turn and
where the call stands.  Parameters without an operand get new cells without a
value.  The body then runs in one new frame on top of those of the caller, which
binds the parameters and nothing else.  Names are looked up in the frames that
are there while the body runs, so any other name means what it means to the caller.
-/

/-! ## Names declared in turn -/

namespace FrameStack

/-- Bind names in the newest frame, one after the other. -/
def declareEach (stack : FrameStack) (bindings : List (String × Cell)) : FrameStack :=
  bindings.foldl (fun frames binding => frames.declare binding.1 binding.2) stack

variable {stack : FrameStack} {name : String}

/-- The newest frame is asked first. -/
theorem lookup?_eq_or
    (stack : FrameStack)
    (name : String) :
    stack.lookup? name =
      (stack.top.lookup? name).or (stack.below.findSome? fun frame => frame.lookup? name) := by
  rw [lookup?, frames, List.findSome?_cons]
  cases stack.top.lookup? name <;> rfl

/-- Binding names changes no frame but the newest. -/
theorem below_declareEach
    (stack : FrameStack)
    (bindings : List (String × Cell)) :
    (stack.declareEach bindings).below = stack.below := by
  induction bindings generalizing stack with
  | nil => rfl
  | cons binding rest inductionHypothesis => exact inductionHypothesis _

/-- Names declared in turn change what no other name means in the newest frame. -/
theorem lookup?_declareEach_of_not_mem
    {bindings : List (String × Cell)}
    (notAmong : name ∉ bindings.map Prod.fst) :
    (stack.declareEach bindings).top.lookup? name = stack.top.lookup? name := by
  induction bindings generalizing stack with
  | nil => rfl
  | cons binding rest inductionHypothesis =>
      rw [List.map_cons, List.mem_cons, not_or] at notAmong
      exact (inductionHypothesis notAmong.2).trans
        (Frame.lookup?_bind_of_ne stack.top binding.2 notAmong.1)

/-- Of several cells declared for one name the last one counts. -/
theorem lookup?_declareEach_of_last
    {names : List String}
    {cells : List Cell}
    {position : Nat}
    (stack : FrameStack)
    (asMany : cells.length = names.length)
    (isName : names[position]? = some name)
    (isLast : ∀ later, position < later → names[later]? ≠ some name) :
    (stack.declareEach (names.zip cells)).top.lookup? name = cells[position]? := by
  induction names generalizing stack cells position with
  | nil => cases isName
  | cons first rest inductionHypothesis =>
      obtain ⟨cell, others, rfl⟩ := List.exists_cons_of_length_eq_add_one asMany
      have asManyOthers : others.length = rest.length := Nat.succ.inj asMany
      cases position with
      | zero =>
          cases isName
          have notAmong : name ∉ (rest.zip others).map Prod.fst := by
            rw [List.map_fst_zip (by omega)]
            intro again
            obtain ⟨later, isLater⟩ := List.mem_iff_getElem?.mp again
            exact isLast (later + 1) (Nat.succ_pos later) isLater
          exact (lookup?_declareEach_of_not_mem notAmong).trans
            (Frame.lookup?_bind_self stack.top name cell)
      | succ position =>
          exact inductionHypothesis _ asManyOthers isName fun later beyond =>
            isLast (later + 1) (Nat.succ_lt_succ beyond)

/-- A name means nothing in the newest frame unless it is declared or meant something before. -/
theorem isSome_lookup?_declareEach
    {bindings : List (String × Cell)} :
    ((stack.declareEach bindings).top.lookup? name).isSome = true ↔
      name ∈ bindings.map Prod.fst ∨ (stack.top.lookup? name).isSome = true := by
  induction bindings generalizing stack with
  | nil => simp [declareEach]
  | cons binding rest inductionHypothesis =>
      refine inductionHypothesis.trans ?_
      by_cases same : name = binding.1
      · simp [FrameStack.declare, same]
      · simp [FrameStack.declare, Frame.lookup?_bind_of_ne stack.top binding.2 same, same]

end FrameStack

/-- Binding names one after the other is one change of the frames. -/
theorem Action.declareAll_apply
    (bindings : List (String × Cell))
    (machine : Machine) :
    Action.declareAll bindings machine =
      .done () (machine.withFrames fun frames => frames.declareEach bindings) := by
  induction bindings generalizing machine with
  | nil => rfl
  | cons binding rest inductionHypothesis => exact inductionHypothesis _

namespace Evaluation

/-! ## What a call does -/

/-- Nodes are evaluated in turn, each once and to an ordinary end with a cell. -/
inductive Supplies (evaluate : Evaluator) :
    List Node → Machine → List Cell → Machine → Prop where
  | nil (machine : Machine) :
      Supplies evaluate [] machine [] machine
  | cons
      {node : Node}
      {rest : List Node}
      {cell : Cell}
      {cells : List Cell}
      {before between after : Machine}
      (ended : evaluate node before = .done cell between)
      (others : Supplies evaluate rest between cells after) :
      Supplies evaluate (node :: rest) before (cell :: cells) after

/-- One of the nodes, evaluated in turn, has no ordinary end; those behind it are left out. -/
def BreaksOff
    (evaluate : Evaluator)
    (nodes : List Node)
    (machine : Machine)
    (ending : Ending Cell) : Prop :=
  ∃ earlier node later between,
    nodes = earlier ++ node :: later ∧
      Passes evaluate earlier machine between ∧
      evaluate node between = ending ∧
      ending.value? = none

/-- So many new cells without a value are there, and nothing else has changed. -/
structure Lacks
    (count : Nat)
    (known : Machine)
    (cells : List Cell)
    (supplied : Machine) : Prop where
  asMany : cells.length = count
  distinct : cells.Nodup
  fresh : ∀ cell ∈ cells, ¬known.heap.Has cell
  absent : ∀ cell ∈ cells, supplied.heap.Has cell ∧ supplied.heap.read cell = .none
  heap : ∀ cell,
    known.heap.Has cell →
    supplied.heap.Has cell ∧ supplied.heap.read cell = known.heap.read cell
  frames : supplied.frames = known.frames
  sink : supplied.sink = known.sink

/--
One frame has been added to those of the caller.  It binds the parameters alone, the
last of those of one name; any other name means what it means to the caller.
-/
structure EntersWith
    (parameters : List String)
    (cells : List Cell)
    (caller entered : Machine) : Prop where
  heap : entered.heap = caller.heap
  sink : entered.sink = caller.sink
  below : entered.frames.below = caller.frames.frames
  binds : ∀ name, (entered.frames.top.lookup? name).isSome = true ↔ name ∈ parameters
  bindsLast : ∀ (position : Nat) (name : String),
    parameters[position]? = some name →
    (∀ later, position < later → parameters[later]? ≠ some name) →
    entered.frames.lookup? name = cells[position]?
  others : ∀ name, name ∉ parameters → entered.frames.lookup? name = caller.frames.lookup? name

/-- How a call ends when the body ends in some way: the caller has its frames back. -/
def endOfCall (caller : FrameStack) : Ending Cell → Ending Cell
  | .done cell after => .done cell { after with frames := caller }
  | .left (.returning cell) after => .done cell { after with frames := caller }
  | .left (.failing fault) after => .left (.failing fault) { after with frames := caller }
  | .unfinished => .unfinished

/-! ## Nodes in turn -/

section

variable {evaluate : Evaluator} {nodes : List Node} {machine : Machine}

theorem Supplies.asMany
    {cells : List Cell}
    {after : Machine}
    (supplies : Supplies evaluate nodes machine cells after) :
    cells.length = nodes.length := by
  induction supplies with
  | nil => rfl
  | cons _ _ inductionHypothesis => exact congrArg Nat.succ inductionHypothesis

/-- Operands that were evaluated in turn have only added bindings to the newest frame. -/
theorem Supplies.growsTo
    {limits : Limits}
    {fuel : Nat}
    {cells : List Cell}
    {after : Machine}
    (supplies : Supplies (CellScript.evaluate limits fuel) nodes machine cells after) :
    machine.frames.GrowsTo after.frames := by
  induction supplies with
  | nil => exact .refl _
  | cons ended _ inductionHypothesis =>
      have grows := FrameStack.GrowsTo.of_evaluate (congrArg Ending.machine? ended)
      exact grows.trans inductionHypothesis

/-- Either all nodes supply their cells, or one of them breaks off. -/
theorem supplies_or_breaksOff
    (evaluate : Evaluator)
    (nodes : List Node)
    (machine : Machine) :
    (∃ cells after, Supplies evaluate nodes machine cells after) ∨
      ∃ ending, BreaksOff evaluate nodes machine ending := by
  induction nodes generalizing machine with
  | nil => exact .inl ⟨[], machine, .nil machine⟩
  | cons node rest inductionHypothesis =>
      cases ended : evaluate node machine with
      | left exit after => exact .inr ⟨_, [], node, rest, machine, rfl, .nil machine, ended, rfl⟩
      | unfinished => exact .inr ⟨_, [], node, rest, machine, rfl, .nil machine, ended, rfl⟩
      | done cell between =>
          rcases inductionHypothesis between with
            ⟨cells, after, others⟩ | ⟨ending, earlier, inner, later, stopped, rfl, passes, breaks⟩
          · exact .inl ⟨cell :: cells, after, .cons ended others⟩
          · exact .inr ⟨ending, node :: earlier, inner, later, stopped, rfl,
              .cons ended passes, breaks⟩

end

/-! ## Operands of a call -/

section

variable {evaluate : Evaluator} {parameters : List String} {operands : List Node}
variable {machine : Machine}

/-- Operands beyond the parameters play no part. -/
theorem actuals_take
    (evaluate : Evaluator)
    (parameters : List String)
    (operands : List Node) :
    actuals evaluate parameters (operands.take parameters.length) =
      actuals evaluate parameters operands := by
  induction parameters generalizing operands with
  | nil => rfl
  | cons parameter rest inductionHypothesis =>
      cases operands with
      | nil => rfl
      | cons node later =>
          rw [List.length_cons, List.take_succ_cons, actuals, actuals]
          refine bind_congr fun cell => ?_
          rw [List.tail_cons, List.tail_cons, inductionHypothesis]

theorem Lacks.none
    (known : Machine) :
    Lacks 0 known [] known where
  asMany := rfl
  distinct := .nil
  fresh := nofun
  absent := nofun
  heap _ has := ⟨has, rfl⟩
  frames := rfl
  sink := rfl

/-- Parameters without operands get new cells without a value. -/
theorem actuals_of_lacking
    (evaluate : Evaluator)
    (parameters : List String)
    (known : Machine) :
    ∃ lacking supplied,
      Lacks parameters.length known lacking supplied ∧
        actuals evaluate parameters [] known = .done (parameters.zip lacking) supplied := by
  induction parameters generalizing known with
  | nil => exact ⟨[], known, .none known, rfl⟩
  | cons parameter rest inductionHypothesis =>
      let cell := (known.heap.allocate .none).1
      let heap := (known.heap.allocate .none).2
      obtain ⟨lacking, supplied, lacks, ended⟩ := inductionHypothesis { known with heap }
      have isNew : ¬known.heap.Has cell := Nat.lt_irrefl _
      have has : heap.Has cell := Heap.has_allocate _ _
      have kept := lacks.heap cell has
      refine ⟨cell :: lacking, supplied, ?_, ?_⟩
      · exact
          { asMany := congrArg Nat.succ lacks.asMany
            distinct := List.nodup_cons.mpr
              ⟨fun again => lacks.fresh cell again has, lacks.distinct⟩
            fresh := List.forall_mem_cons.mpr
              ⟨isNew, fun other among old => lacks.fresh other among (old.allocate .none)⟩
            absent := List.forall_mem_cons.mpr
              ⟨⟨kept.1, kept.2.trans (Heap.read_allocate_self _ _)⟩, lacks.absent⟩
            heap := fun other old => by
              have same := lacks.heap other (old.allocate .none)
              exact ⟨same.1, same.2.trans (Heap.read_allocate_of_lt _ old)⟩
            frames := lacks.frames
            sink := lacks.sink }
      · exact (Action.bind_of_done rfl).trans (Action.bind_of_done ended)

/-- Once the operands that count have supplied their cells, each parameter has one. -/
theorem actuals_of_supplies
    {given : List Cell}
    {known : Machine}
    (supplies : Supplies evaluate (operands.take parameters.length) machine given known) :
    ∃ lacking supplied,
      Lacks (parameters.length - operands.length) known lacking supplied ∧
        actuals evaluate parameters operands machine =
          .done (parameters.zip (given ++ lacking)) supplied := by
  induction parameters generalizing operands machine given with
  | nil =>
      cases supplies
      rw [List.length_nil, Nat.zero_sub]
      exact ⟨[], known, .none known, rfl⟩
  | cons parameter rest inductionHypothesis =>
      cases operands with
      | nil =>
          cases supplies
          exact actuals_of_lacking evaluate (parameter :: rest) known
      | cons node later =>
          cases supplies with
          | cons ended others =>
              obtain ⟨lacking, supplied, lacks, known⟩ := inductionHypothesis others
              refine ⟨lacking, supplied, ?_, ?_⟩
              · rwa [List.length_cons, List.length_cons, Nat.add_sub_add_right]
              · exact (Action.bind_of_done ended).trans (Action.bind_of_done known)

/-- A computation that has no ordinary end is the last one of those that follow each other. -/
theorem bind_of_valueless
    {action : Action Cell}
    {next : Cell → Action Cell}
    (valueless : (action machine).value? = none) :
    (action >>= next) machine = action machine := by
  rw [Action.bind_apply]
  cases ended : action machine with
  | done cell after =>
      rw [ended] at valueless
      cases valueless
  | left exit after => rfl
  | unfinished => rfl

/-- What follows the operands of a call is left out when one of those that count breaks off. -/
theorem actuals_of_breaksOff
    {ending : Ending Cell}
    {next : List (String × Cell) → Action Cell}
    (breaksOff : BreaksOff evaluate (operands.take parameters.length) machine ending) :
    (actuals evaluate parameters operands >>= next) machine = ending := by
  obtain ⟨earlier, node, later, between, split, passes, rfl, valueless⟩ := breaksOff
  induction parameters generalizing operands machine earlier next with
  | nil =>
      rw [List.length_nil, List.take_zero] at split
      cases earlier <;> cases split
  | cons parameter rest inductionHypothesis =>
      cases operands with
      | nil => cases earlier <;> cases split
      | cons first others =>
          rw [List.length_cons, List.take_succ_cons] at split
          rw [actuals, List.head?_cons, List.tail_cons, optional, bind_assoc]
          cases passes with
          | nil =>
              cases split
              exact bind_of_valueless valueless
          | cons ended passes =>
              injection split with same inOthers
              subst same
              rw [Action.bind_of_done ended, bind_assoc]
              exact inductionHypothesis _ inOthers passes

end

/-! ## Bodies of functions -/

/-- The body of a function runs on a machine that has entered it with its parameters bound. -/
theorem exists_entered
    {parameters : List String}
    {cells : List Cell}
    (caller : Machine)
    (asMany : cells.length = parameters.length) :
    ∃ entered,
      EntersWith parameters cells caller entered ∧
        Action.declareAll (parameters.zip cells) (caller.withFrames FrameStack.push) =
          .done () entered := by
  refine ⟨_, ?_, Action.declareAll_apply _ _⟩
  let entered := caller.frames.push.declareEach (parameters.zip cells)
  have names : (parameters.zip cells).map Prod.fst = parameters :=
    List.map_fst_zip (Nat.le_of_eq asMany.symm)
  have below : entered.below = caller.frames.frames := FrameStack.below_declareEach _ _
  have binds (name : String) :
      (entered.top.lookup? name).isSome = true ↔ name ∈ parameters := by
    rw [FrameStack.isSome_lookup?_declareEach, names]
    simp [FrameStack.push, Frame.empty, Frame.lookup?]
  refine
    { heap := rfl, sink := rfl, below, binds, bindsLast := ?bindsLast, others := ?others }
  case bindsLast =>
    intro position name isName isLast
    obtain ⟨within, -⟩ := List.getElem?_eq_some_iff.mp isName
    have last : entered.top.lookup? name = cells[position]? :=
      FrameStack.lookup?_declareEach_of_last _ asMany isName isLast
    rw [List.getElem?_eq_getElem (by omega)] at last ⊢
    exact (FrameStack.lookup?_eq_or entered name).trans (by rw [last]; rfl)
  case others =>
    intro name notAmong
    have unbound : entered.top.lookup? name = none := by
      rw [← Option.not_isSome_iff_eq_none, binds]
      exact notAmong
    refine (FrameStack.lookup?_eq_or entered name).trans ?_
    rw [unbound, below]
    rfl

/-- A call whose parameters all have their cells ends as the body does on the entered machine. -/
theorem call_of_entered
    {limits : Limits}
    {fuel : Nat}
    {parameters : List String}
    {operands : List Node}
    {bindings : List (String × Cell)}
    {machine caller entered : Machine}
    (body : Node)
    (known : actuals (CellScript.evaluate limits fuel) parameters operands machine =
      .done bindings caller)
    (declared : Action.declareAll bindings (caller.withFrames FrameStack.push) =
      .done () entered)
    (below : entered.frames.below = caller.frames.frames) :
    call (CellScript.evaluate limits fuel) parameters body operands machine =
      endOfCall caller.frames (CellScript.evaluate limits fuel body entered) := by
  -- The body lets only the new frame grow, so dropping the newest frame leaves the caller's.
  have dropped {after : Machine}
      (ended : (CellScript.evaluate limits fuel body entered).machine? = some after) :
      after.withFrames FrameStack.pop = { after with frames := caller.frames } := by
    have grows := FrameStack.GrowsTo.of_evaluate ended
    rw [Machine.withFrames, FrameStack.pop, grows.below, below]
    rfl
  refine (Action.bind_of_done known).trans ?_
  rw [Action.inFrame, Action.bind_of_done declared, Action.catchReturn]
  cases ended : CellScript.evaluate limits fuel body entered with
  | done cell after => exact congrArg (Ending.done cell) (dropped (congrArg _ ended))
  | left exit after =>
      cases exit with
      | returning cell => exact congrArg (Ending.done cell) (dropped (congrArg _ ended))
      | failing fault => exact congrArg (Ending.left _) (dropped (congrArg _ ended))
  | unfinished => rfl

end Evaluation

open Evaluation

/--
Calling the function that a name is bound to evaluates as many operands as there are
parameters, in turn and in the frames of the caller; any others are left out.  When one
of them is left early, the call is left in the same way.  Otherwise the body, as it was
when the call began, runs on a machine with one more frame, which binds the parameters,
and the call ends with an ordinary value or the fault of the body, and with the frames
that the caller had.
-/
theorem call_protocol
    (limits : Limits)
    (fuel : Nat)
    {name : String}
    {function : Cell}
    {parameters : List String}
    {body : Node}
    (operands : List Node)
    {machine : Machine}
    (meaning : HeadWord.ofWord name = .name name)
    (bound : machine.frames.lookup? name = some function)
    (callable : machine.heap.read function = .function parameters body) :
    let evaluator := evaluate limits fuel
    let counted := operands.take parameters.length
    let ending := evaluate limits (fuel + 1) (.form name operands) machine
    ending = evaluate limits (fuel + 1) (.form name counted) machine ∧
      (∀ earlier given between,
        earlier <+: counted →
        Supplies evaluator earlier machine given between →
        machine.frames.GrowsTo between.frames) ∧
      (∀ word cell before result after,
        word ≠ "none" →
        before.frames.lookup? word = some cell →
        (before.heap.read cell).isFunction = false →
        evaluator (.leaf (.word word)) before = .done result after →
        result = cell ∧ after = before) ∧
      ((∃ given known, Supplies evaluator counted machine given known) ∨
        ∃ stop, BreaksOff evaluator counted machine stop) ∧
      (∀ stop, BreaksOff evaluator counted machine stop → ending = stop) ∧
      ∀ given known,
        Supplies evaluator counted machine given known →
        ∃ lacking caller entered,
          Lacks (parameters.length - operands.length) known lacking caller ∧
            EntersWith parameters (given ++ lacking) caller entered ∧
            ending = endOfCall caller.frames (evaluator body entered) := by
  intro evaluator counted ending
  have called (operands : List Node) :
      evaluate limits (fuel + 1) (.form name operands) machine =
        call evaluator parameters body operands machine := by
    rw [evaluate_form, form, meaning]
    exact nameForm_of_function bound callable
  refine ⟨?_, fun _ _ _ _ => Supplies.growsTo, ?_, supplies_or_breaksOff _ _ _, ?_, ?_⟩
  · refine (called operands).trans (Eq.trans ?_ (called counted).symm)
    rw [call, call, actuals_take]
  · intro word cell before result after named isBound noFunction ended
    cases fuel with
    | zero => cases ended
    | succ fuel =>
        have same := (leafValue_of_bound named isBound noFunction).symm.trans ended
        cases same
        exact ⟨rfl, rfl⟩
  · intro stop breaksOff
    exact (called operands).trans (actuals_of_breaksOff breaksOff)
  · intro given known supplies
    obtain ⟨lacking, caller, lacks, knownAll⟩ := actuals_of_supplies supplies
    have asMany : (given ++ lacking).length = parameters.length := by
      rw [List.length_append, supplies.asMany, lacks.asMany, List.length_take]
      omega
    obtain ⟨entered, enters, declared⟩ := exists_entered caller asMany
    exact ⟨lacking, caller, entered, lacks, enters,
      (called operands).trans (call_of_entered body knownAll declared enters.below)⟩

/--
The second operand overwrites the callee, whose body runs all the same.  The repeated
parameter means the last of its cells, a new one, so assigning to it leaves what the
first operand gave as it is.
-/
theorem call_of_function_assigned_meanwhile :
    let body := Node.block [.form "set" [.leaf (.word "x"), .leaf (.number 7)],
      .form "return" [.leaf (.word "x")]]
    let operands := [.leaf (.word "a"), .form "set" [.leaf (.word "f"), .leaf (.word "a")]]
    let machine : Machine :=
      { heap := { values := #[.function ["x", "y", "x"] body, .integer 3] }
        frames := (FrameStack.global.declare "f" ⟨0⟩).declare "a" ⟨1⟩
        sink := Sink.start none }
    HeadWord.ofWord "f" = .name "f" ∧
      machine.frames.lookup? "f" = some ⟨0⟩ ∧
      machine.heap.read ⟨0⟩ = .function ["x", "y", "x"] body ∧
      ∃ given known lacking caller entered result after,
        Supplies (evaluate .unlimited 9) operands machine given known ∧
          known.heap.read ⟨0⟩ = .integer 3 ∧
          Lacks 1 known lacking caller ∧
          EntersWith ["x", "y", "x"] (given ++ lacking) caller entered ∧
          endOfCall caller.frames (evaluate .unlimited 9 body entered) = .done result after ∧
          after.heap.read result = .integer 7 ∧
          after.heap.read ⟨1⟩ = .integer 3 := by
  intro body operands machine
  have isBound : machine.frames.lookup? "f" = some ⟨0⟩ := rfl
  have isFunction : machine.heap.read ⟨0⟩ = .function ["x", "y", "x"] body := rfl
  obtain ⟨given, known, supplies, assigned⟩ : ∃ given known,
      Supplies (evaluate .unlimited 9) operands machine given known ∧
        known.heap.read ⟨0⟩ = .integer 3 :=
    ⟨_, _, .cons rfl (.cons rfl (.nil _)), rfl⟩
  obtain ⟨result, after, ended, isNew, isOld⟩ : ∃ result after,
      evaluate .unlimited 10 (.form "f" operands) machine = .done result after ∧
        after.heap.read result = .integer 7 ∧ after.heap.read ⟨1⟩ = .integer 3 :=
    ⟨_, _, rfl, rfl, rfl⟩
  obtain ⟨-, -, -, -, -, entering⟩ := call_protocol .unlimited 9 operands rfl isBound isFunction
  obtain ⟨lacking, caller, entered, lacks, enters, ends⟩ := entering given known supplies
  exact ⟨rfl, isBound, isFunction, given, known, lacking, caller, entered, result, after,
    supplies, assigned, lacks, enters, ends.symm.trans ended, isNew, isOld⟩

end CellScript
