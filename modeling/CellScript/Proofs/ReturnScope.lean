import CellScript.Proofs.Fuel
import CellScript.Proofs.ReturnSignals

namespace CellScript

/-!
# The scope of return signals

A return signal comes from a return form, and the call of a function takes it.  So
what a called function does cannot make its caller return: a node returns only if
a return form stands in the node itself, outside the functions that it makes.
-/

/-! ## Trees that keep their return forms inside functions -/

namespace Node

/-- The members of a block that makes a function. -/
def makesFunction (members : List Node) : Bool :=
  members.head? = some (.leaf (.word "fn"))

mutual

/-- A node and the nodes below it, without those inside the operands of function forms. -/
def surface : Node → List Node
  | .leaf value => [.leaf value]
  | .block members =>
      .block members :: if makesFunction members then [] else surfaceAll members

/-- The same for all members, member by member. -/
def surfaceAll : List Node → List Node
  | [] => []
  | member :: rest => surface member ++ surfaceAll rest

end

/-- Return forms stand in a tree only inside the operands of its function forms. -/
def KeepsReturns (node : Node) : Prop :=
  ∀ operands, form "return" operands ∉ node.surface

theorem mem_surfaceAll
    {node : Node}
    {members : List Node} :
    node ∈ surfaceAll members ↔ ∃ member ∈ members, node ∈ surface member := by
  induction members with
  | nil => simp [surfaceAll]
  | cons member rest inductionHypothesis => simp [surfaceAll, inductionHypothesis]

/-- A return form itself stands outside all functions of its tree. -/
theorem not_keepsReturns_return
    (operands : List Node) :
    ¬(form "return" operands).KeepsReturns := by
  intro keeps
  apply keeps operands
  rw [form, surface]
  exact List.mem_cons_self

namespace KeepsReturns

/-- The members of a block that makes no function keep their return forms inside functions. -/
theorem below
    {members : List Node}
    (keeps : (block members).KeepsReturns)
    (noFunction : makesFunction members = false) :
    ∀ member ∈ members, member.KeepsReturns := by
  intro member isMember operands isBelow
  apply keeps operands
  rw [surface, noFunction]
  exact List.mem_cons_of_mem _ (mem_surfaceAll.mpr ⟨member, isMember, isBelow⟩)

/-- The members of a sequence keep their return forms inside functions. -/
theorem members
    {members : List Node}
    (isSequence : isSequence members = true)
    (keeps : (block members).KeepsReturns) :
    ∀ member ∈ members, member.KeepsReturns := by
  apply keeps.below
  cases members with
  | nil => rfl
  | cons first rest =>
      cases first with
      | leaf value => cases isSequence
      | block inner => rfl

theorem operands
    {word : String}
    {operands : List Node}
    (differs : word ≠ "fn")
    (keeps : (form word operands).KeepsReturns) :
    ∀ operand ∈ operands, operand.KeepsReturns := by
  have noFunction : makesFunction (.leaf (.word word) :: operands) = false := by
    simp [makesFunction, differs]
  exact fun operand isOperand =>
    keeps.below noFunction operand (List.mem_cons_of_mem _ isOperand)

end KeepsReturns

end Node

/-! ## Evaluation without return signals -/

/-- No return signal leaves a computation. -/
def noReturns : Custody where
  invariant _ := True
  relates _ exit _ := ∀ cell, exit ≠ some (.returning cell)
  holds _ _ := True

namespace noReturns

/-- No primitive step raises a return signal, and of the forms only the return form does. -/
theorem steady : noReturns.Steady Node.KeepsReturns where
  stays _ := nofun
  joins _ later := later
  fails _ _ := nofun
  returns keeps _ _ := absurd keeps (Node.not_keepsReturns_return _)
  takes _ := nofun
  carries _ := trivial
  keeps _ _ := trivial
  names _ _ := trivial
  slots _ _ _ _ := trivial
  makes _ _ := ⟨⟨trivial, nofun⟩, trivial⟩
  assigns _ _ _ _ := ⟨trivial, nofun⟩
  splices _ _ _ _ := ⟨trivial, nofun⟩
  declares _ _ := ⟨trivial, nofun⟩
  prints _ _ := Action.printLine_meetsAt ⟨trivial, nofun⟩ ⟨trivial, nofun⟩
  pushes _ := trivial
  pops _ accepted := ⟨trivial, accepted.relates⟩
  goodMembers := Node.KeepsReturns.members
  goodOperands := Node.KeepsReturns.operands

/-- Where return signals are taken, it does not matter what raises them. -/
theorem delivers_catchReturn
    (action : Action Cell) :
    (Action.catchReturn action).Delivers noReturns := by
  intro machine _
  unfold Action.Yields
  cases ended : Action.catchReturn action machine with
  | done cell after => exact ⟨⟨trivial, nofun⟩, trivial⟩
  | left exit after =>
      obtain ⟨fault, rfl⟩ := Action.fault_of_catchReturn ended
      exact ⟨trivial, nofun⟩
  | unfinished => trivial

/-- A node that keeps its return forms inside functions never raises a return signal. -/
theorem evaluation
    (limits : Limits)
    (fuel : Nat)
    {node : Node}
    (keeps : node.KeepsReturns) :
    (evaluate limits fuel node).Delivers noReturns := by
  -- The bodies of functions may be anything: a call takes the signals they raise.
  have bodies (fuel : Nat) : noReturns.DeliverBodies (evaluate limits fuel) :=
    fun _ _ => delivers_catchReturn _
  exact steady.evaluation limits (fun fuel _ => bodies fuel) fuel keeps

end noReturns

/-! ## Calls -/

namespace Evaluation

/-- A call comes to its end with the cell of the signal that leaves the body of the function. -/
theorem call_of_returning
    {evaluate : Evaluator}
    {parameters : List String}
    {body : Node}
    {operands : List Node}
    {bindings : List (String × Cell)}
    {machine between entered after : Machine}
    {cell : Cell}
    (known : actuals evaluate parameters operands machine = .done bindings between)
    (declared : Action.declareAll bindings (between.withFrames FrameStack.push) =
      .done () entered)
    (signals : evaluate body entered = .left (.returning cell) after) :
    call evaluate parameters body operands machine =
      .done cell (after.withFrames FrameStack.pop) := by
  have taken : (Action.declareAll bindings >>= fun _ => Action.catchReturn (evaluate body))
      (between.withFrames FrameStack.push) = .done cell after :=
    (Action.bind_of_done declared).trans (Action.catchReturn_of_returning signals)
  refine (Action.bind_of_done known).trans ?_
  rw [Action.inFrame, taken]
  rfl

end Evaluation

open Evaluation

/--
A node whose return forms all stand inside functions that it makes never raises a
return signal, whatever functions the names it calls are bound to and whatever
these call.  A signal that leaves the body of a called function ends that call
with an ordinary value: the cell that the signal carries.
-/
theorem return_ends_at_call
    (limits : Limits)
    (fuel : Nat) :
    (∀ (node : Node) (machine after : Machine) (cell : Cell),
      node.KeepsReturns →
      evaluate limits fuel node machine ≠ .left (.returning cell) after) ∧
    ∀ {word name function parameters body operands bindings}
      {machine between entered after : Machine} {cell : Cell},
      HeadWord.ofWord word = .name name →
      machine.frames.lookup? name = some function →
      machine.heap.read function = .function parameters body →
      actuals (evaluate limits fuel) parameters operands machine = .done bindings between →
      Action.declareAll bindings (between.withFrames FrameStack.push) = .done () entered →
      evaluate limits fuel body entered = .left (.returning cell) after →
      evaluate limits (fuel + 1) (.form word operands) machine =
        .done cell (after.withFrames FrameStack.pop) := by
  constructor
  · intro node machine after cell keeps signals
    have kept : (evaluate limits fuel node machine).Yields noReturns machine _ :=
      noReturns.evaluation limits fuel keeps machine trivial
    rw [signals] at kept
    exact kept.relates cell rfl
  · intro word name function parameters body operands bindings machine between entered after
      cell meaning bound callable known declared signals
    rw [evaluate_form, form, meaning]
    exact (nameForm_of_function bound callable).trans
      (call_of_returning known declared signals)

/-- A function that returns out of a loop does not make the choice that calls it return. -/
theorem return_out_of_loop_ends_at_call :
    let body := Node.block [.form "while" [.leaf (.number 1), .form "return" [.leaf (.word "x")]]]
    let node := Node.form "if" [.form "f" [.leaf (.number 7)], .form "f" [.leaf (.number 8)]]
    let machine : Machine :=
      { heap := { values := #[.function ["x"] body] }
        frames := FrameStack.global.declare "f" ⟨0⟩
        sink := Sink.start none }
    node.KeepsReturns ∧
      (∀ after cell, evaluate .unlimited 9 node machine ≠ .left (.returning cell) after) ∧
      ∃ cell after,
        evaluate .unlimited 9 node machine = .done cell after ∧
          after.heap.read cell = .integer 8 := by
  intro body node machine
  have keeps : node.KeepsReturns := by
    simp [node, Node.KeepsReturns, Node.form, Node.surface, Node.surfaceAll, Node.makesFunction]
  obtain ⟨never, _⟩ := return_ends_at_call .unlimited 9
  exact ⟨keeps, fun after cell => never node machine after cell keeps, _, _, rfl, rfl⟩

end CellScript
