import CellScript.Proofs.EvaluationCustody

/-!
# Evaluation keeps lawful contracts

A contract is custody under which any cell may be held.  So evaluation, and the
parts of forms that other modules look at by themselves, keep every lawful
contract because they keep every lawful custody.
-/

namespace CellScript

/-- The custody under which any cell may be held. -/
def Contract.custody (contract : Contract) : Custody where
  toContract := contract
  holds _ _ := True

/-- A computation that keeps a contract delivers when any cell may be held. -/
theorem Action.Meets.delivers
    {contract : Contract}
    {action : Action Cell}
    (meets : action.Meets contract) :
    action.Delivers contract.custody := by
  intro machine holds
  have kept : (action machine).Meets contract machine := meets machine holds
  unfold Action.Yields
  cases ended : action machine with
  | done cell after =>
      rw [ended] at kept
      exact ⟨kept, trivial⟩
  | left exit after =>
      rw [ended] at kept
      exact kept
  | unfinished => trivial

/-- A computation that delivers under the custody of a contract keeps the contract. -/
theorem Action.Delivers.meets
    {contract : Contract}
    {action : Action Cell}
    (delivers : action.Delivers contract.custody) :
    action.Meets contract :=
  fun machine holds => Ending.Yields.meets (delivers machine holds)

namespace Contract.Lawful

variable {contract : Contract} {good : Node → Prop} {evaluate : Evaluation.Evaluator}

/-- A value that a form makes gets a cell under every lawful contract. -/
theorem accepts_of_made
    (lawful : contract.Lawful good)
    {machine : Machine}
    {value : Value}
    {held : Cell → Prop}
    (holds : contract.invariant machine)
    (made : value.Made good held machine.heap) :
    contract.Accepts machine none { machine with heap := (machine.heap.allocate value).2 } := by
  cases value with
  | none | boolean | integer | text | list => exact lawful.allocates rfl holds
  | function parameters body =>
      obtain ⟨operands, making, rfl⟩ := made.body_of_function
      exact lawful.allocatesFunction making holds

/-- The custody of a lawful contract is lawful. -/
theorem custody
    (lawful : contract.Lawful good) :
    contract.custody.Lawful good where
  stays := lawful.stays
  joins := lawful.joins
  fails := lawful.fails
  returns goodForm holds _ := lawful.returns goodForm holds
  takes := lawful.takes
  carries _ := trivial
  keeps _ _ := trivial
  names _ _ := trivial
  slots _ _ _ _ := trivial
  makes holds made := ⟨lawful.accepts_of_made holds made, trivial⟩
  assigns assigning holds _ _ := lawful.assigns assigning holds
  splices assigning holds _ _ := lawful.splices assigning holds
  declares holds _ := lawful.declares holds
  prints holds _ := lawful.prints _ holds
  pushes := lawful.pushes
  pops := lawful.pops
  goodMembers := lawful.goodMembers
  goodOperands := lawful.goodOperands
  goodBody := lawful.goodBody

theorem operand
    (lawful : contract.Lawful good)
    {operands : List Node}
    (members : ∀ node ∈ operands, (evaluate node).Meets contract)
    (position : Nat) :
    (Evaluation.operand evaluate operands position).Meets contract :=
  (lawful.custody.operand (fun node isMember => (members node isMember).delivers) position).meets

/-- Members in turn meet a contract that each of them meets. -/
theorem lastOf
    (lawful : contract.Lawful good)
    {nodes : List Node}
    (members : ∀ node ∈ nodes, (evaluate node).Meets contract)
    (last : Cell) :
    (Evaluation.lastOf evaluate last nodes).Meets contract := by
  have delivers := fun node isMember => (members node isMember).delivers
  exact fun _ holds => Ending.Yields.meets (lawful.custody.lastOf delivers holds trivial)

/-- Pairing parameters with operands keeps a contract that the operands keep. -/
theorem actuals
    (lawful : contract.Lawful good)
    (parameters : List String)
    {operands : List Node}
    (members : ∀ node ∈ operands, (evaluate node).Meets contract) :
    (Evaluation.actuals evaluate parameters operands).Meets contract := by
  have delivers := fun node isMember => (members node isMember).delivers
  exact fun _ holds => Ending.Yields.meets (lawful.custody.actuals parameters delivers holds)

/-- Rounds meet a contract that the condition and the body meet. -/
theorem rounds
    (lawful : contract.Lawful good)
    (limit : Option Nat)
    {condition body : Action Cell}
    (conditionMeets : condition.Meets contract)
    (bodyMeets : body.Meets contract)
    (fuel made : Nat) :
    (Evaluation.rounds limit condition body fuel made).Meets contract :=
  fun _ holds => Ending.Yields.meets
    (lawful.custody.rounds limit conditionMeets.delivers bodyMeets.delivers fuel made holds)

/-- Evaluating a good node keeps every lawful contract, whatever the limits and the fuel. -/
theorem evaluation
    (lawful : contract.Lawful good)
    (limits : Limits)
    (fuel : Nat)
    {node : Node}
    (goodNode : good node) :
    (CellScript.evaluate limits fuel node).Meets contract :=
  (lawful.custody.evaluation limits fuel goodNode).meets

end Contract.Lawful

end CellScript
