import CellScript.Proofs.ReadBack
import CellScript.Proofs.StoredBodies

namespace CellScript

/-!
# Bodies of functions

A function form keeps its body as it stands in the tree, so on a machine on which
only scripts have been run, the body of every function is part of a tree that the
reader made, and is read back from its display.
-/

/-! ## Heaps -/

namespace Heap

/-- The body of every function in a heap is read back from its display. -/
def BodiesReadBack (heap : Heap) : Prop :=
  ∀ cell parameters body,
    heap.read cell = .function parameters body →
    Node.ofSource body.display = .ok [body]

theorem bodiesReadBack_empty : empty.BodiesReadBack :=
  nofun

end Heap

/-! ## The contract -/

/-- Evaluation keeps the bodies of functions such that they are read back. -/
def bodiesReadBack : Contract where
  invariant machine := machine.heap.BodiesReadBack
  relates _ _ _ := True

namespace bodiesReadBack

/-- The operands of a readable form are readable. -/
theorem operand_readable
    {head : String}
    {operands : List Node}
    (readable : Node.Readable (.form head operands)) :
    ∀ operand ∈ operands, operand.Readable :=
  fun operand isOperand => readable.members operand (List.mem_cons_of_mem _ isOperand)

/-- A missing body is the empty block, which is readable too. -/
theorem body_readable
    {operands : List Node}
    (readable : Node.Readable (.form "fn" operands)) :
    (operands[1]?.getD (Node.block [])).Readable := by
  cases found : operands[1]? with
  | none => exact .block fun _ isMember => absurd isMember List.not_mem_nil
  | some body => exact operand_readable readable body (List.mem_of_getElem? found)

/-- Readable nodes may be evaluated. -/
theorem lawful : bodiesReadBack.Lawful Node.Readable := by
  show (storedBodies fun body => Node.ofSource body.display = .ok [body]).Lawful Node.Readable
  exact storedBodies.lawful
    (fun readable => (body_readable readable).ofSource_display)
    (fun readsBack => Node.readable_iff_ofSource_display.mpr readsBack)
    (fun _ readable => readable.members)
    (fun _ readable => operand_readable readable)

end bodiesReadBack

/-! ## Machines on which scripts have been run -/

namespace Machine

/-- Nothing but scripts has been run on a machine, however each of them ended. -/
inductive Ran : Machine → Prop
  | start (room : Option Nat) : Ran (Machine.start room)
  | script
      {machine after : Machine}
      (limits : Limits)
      (fuel : Nat)
      (source : String)
      (earlier : Ran machine)
      (ended : (Program.run limits fuel source machine).machine? = some after) :
      Ran after

/-- Running a script keeps the bodies of functions such that they are read back. -/
theorem bodiesReadBack_of_run
    {machine after : Machine}
    {limits : Limits}
    {fuel : Nat}
    {source : String}
    (holds : machine.heap.BodiesReadBack)
    (ended : (Program.run limits fuel source machine).machine? = some after) :
    after.heap.BodiesReadBack := by
  rw [Program.run] at ended
  cases read : Node.ofSource source with
  | error fault =>
      rw [read] at ended
      cases ended
      exact holds
  | ok members =>
      rw [read] at ended
      have good := (Node.readable_of_ofSource read).members
      have kept := bodiesReadBack.lawful.execute limits fuel good machine holds
      obtain ⟨_, accepted⟩ := Ending.Meets.of_machine? kept ended
      exact accepted.invariant

/-- After any programs, the bodies of all stored functions are readable. -/
theorem Ran.bodiesReadBack
    {machine : Machine}
    (ran : machine.Ran) :
    machine.heap.BodiesReadBack := by
  induction ran with
  | start room => exact Heap.bodiesReadBack_empty
  | script limits fuel source _ ended inductionHypothesis =>
      exact bodiesReadBack_of_run inductionHypothesis ended

end Machine

/-! ## Display and reading -/

/--
Every node of a tree that the reader made is read back from its display, so two
such nodes are displayed alike only if they are equal.  Evaluating such a node
makes functions with such bodies only, so wherever nothing but scripts has been
run, the body of every function is read back too.
-/
theorem display_reads_back :
    (∀ source members,
      Node.ofSource source = .ok members →
      ∀ node ∈ (Node.block members).preorder, Node.ofSource node.display = .ok [node]) ∧
    (∀ source members otherSource otherMembers,
      Node.ofSource source = .ok members →
      Node.ofSource otherSource = .ok otherMembers →
      ∀ node ∈ (Node.block members).preorder,
      ∀ other ∈ (Node.block otherMembers).preorder,
        node.display = other.display → node = other) ∧
    (∀ source members limits fuel machine after,
      Node.ofSource source = .ok members →
      ∀ node ∈ (Node.block members).preorder,
        machine.heap.BodiesReadBack →
        (evaluate limits fuel node machine).machine? = some after →
        after.heap.BodiesReadBack) ∧
    ∀ machine, Machine.Ran machine → machine.heap.BodiesReadBack := by
  refine ⟨?_, ?_, ?_, ?_⟩
  · intro source members read node isNode
    have readable := Node.readable_of_ofSource read
    exact (readable.of_mem_preorder isNode).ofSource_display
  · intro source members otherSource otherMembers read otherRead node isNode other isOther
    have readable := Node.readable_of_ofSource read
    have otherReadable := Node.readable_of_ofSource otherRead
    exact (readable.of_mem_preorder isNode).eq_of_display (otherReadable.of_mem_preorder isOther)
  · intro source members limits fuel machine after read node isNode holds ended
    have readable := (Node.readable_of_ofSource read).of_mem_preorder isNode
    have kept := bodiesReadBack.lawful.evaluation limits fuel readable machine holds
    obtain ⟨_, accepted⟩ := Ending.Meets.of_machine? kept ended
    exact accepted.invariant
  · intro machine ran
    exact ran.bodiesReadBack

end CellScript
