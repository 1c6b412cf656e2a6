import CellScript.Proofs.ClosedHeaps

namespace CellScript

/-!
# Mutation

Only an assignment overwrites a cell.  Where neither a tree nor any stored function
has one, evaluation does nothing to the heap but add cells to it.  A list is made
after the cells in its slots, and without assignments it keeps these slots, so no
list comes to contain itself.
-/

namespace Heap

/-! ## Growing heaps -/

/-- A heap has all cells of an earlier one, with the values that they had, and maybe more. -/
structure GrowsTo (before after : Heap) : Prop where
  size : before.size ≤ after.size
  reads : ∀ cell, before.Has cell → after.read cell = before.read cell

namespace GrowsTo

theorem refl
    (heap : Heap) :
    heap.GrowsTo heap :=
  ⟨Nat.le_refl _, fun _ _ => rfl⟩

theorem trans
    {first second third : Heap}
    (earlier : first.GrowsTo second)
    (later : second.GrowsTo third) :
    first.GrowsTo third where
  size := Nat.le_trans earlier.size later.size
  reads cell has := by
    have still : second.Has cell := Nat.lt_of_lt_of_le has earlier.size
    exact (later.reads cell still).trans (earlier.reads cell has)

/-- A new cell is gained, and the others are as they were. -/
theorem allocate
    (heap : Heap)
    (value : Value) :
    heap.GrowsTo (heap.allocate value).2 where
  size := by
    rw [size_allocate]
    exact Nat.le_succ _
  reads _ has := read_allocate_of_lt value has

end GrowsTo

/-! ## Lists within lists -/

/-- Every list was made after the cells in its slots. -/
def SlotsEarlier (heap : Heap) : Prop :=
  ∀ owner slot, heap.HasSlot owner slot → slot.index < owner.index

/-- No list contains itself, be it in a slot or by way of other lists. -/
def Acyclic (heap : Heap) : Prop :=
  ∀ cell, ¬Relation.TransGen heap.HasSlot cell cell

namespace SlotsEarlier

variable {heap : Heap}

theorem empty :
    Heap.empty.SlotsEarlier :=
  nofun

/-- A new list has slots that were there before it. -/
theorem allocate
    (earlier : heap.SlotsEarlier)
    {value : Value}
    (within : ∀ slot, value.HasSlot slot → heap.Has slot) :
    (heap.allocate value).2.SlotsEarlier := by
  intro owner slot hasSlot
  rcases hasSlot.of_allocate with ⟨rfl, isNew⟩ | isOld
  · exact within slot isNew
  · exact earlier owner slot isOld

/-- What a list contains by way of other lists was made before it too. -/
theorem lt_of_transGen
    (earlier : heap.SlotsEarlier)
    {owner slot : Cell}
    (contains : Relation.TransGen heap.HasSlot owner slot) :
    slot.index < owner.index := by
  induction contains with
  | single hasSlot => exact earlier _ _ hasSlot
  | tail _ hasSlot inductionHypothesis =>
      exact Nat.lt_trans (earlier _ _ hasSlot) inductionHypothesis

/-- From a list one comes only to earlier cells, and so never back to it. -/
theorem acyclic
    (earlier : heap.SlotsEarlier) :
    heap.Acyclic :=
  fun _ contains => Nat.lt_irrefl _ (earlier.lt_of_transGen contains)

end SlotsEarlier

end Heap

/-! ## Evaluation without assignments -/

/-- No cell is overwritten, and the stored bodies have no assignments, however evaluation ends. -/
def addsCells : Contract where
  invariant machine := machine.heap.BodiesAll (Node.Lacks "set")
  relates before _ after := before.heap.GrowsTo after.heap

namespace addsCells

/-- The bodies of functions lack assignments if the trees that make them do. -/
theorem bodies : (storedBodies (Node.Lacks "set")).Lawful (Node.Lacks "set") :=
  storedBodies.lawful Node.Lacks.body id (fun _ lacks => lacks.members)
    (fun _ lacks => lacks.operands)

/-- Nodes without assignments may be evaluated. -/
theorem lawful : addsCells.Lawful (Node.Lacks "set") where
  stays _ := .refl _
  joins earlier later := earlier.trans later
  fails _ _ := .refl _
  returns _ _ := .refl _
  takes grows := grows
  allocates plain holds := ⟨(bodies.allocates plain holds).invariant, .allocate _ _⟩
  allocatesFunction making holds :=
    ⟨(bodies.allocatesFunction making holds).invariant, .allocate _ _⟩
  assigns assigning := absurd assigning (Node.not_lacks_form _ _)
  splices assigning := absurd assigning (Node.not_lacks_form _ _)
  declares holds := ⟨holds, .refl _⟩
  prints _ holds := Action.printLine_meetsAt ⟨holds, .refl _⟩ ⟨holds, .refl _⟩
  pushes holds := holds
  pops _ accepted := ⟨accepted.invariant, accepted.relates⟩
  goodMembers := bodies.goodMembers
  goodOperands := bodies.goodOperands
  goodBody := bodies.goodBody

end addsCells

/-- Lists are made after the cells in their slots, and the stored bodies have no assignments. -/
structure Heap.Ordered (heap : Heap) : Prop where
  slots : heap.SlotsEarlier
  bodies : heap.BodiesAll (Node.Lacks "set")

/-- Nodes without assignments may be evaluated in custody of the cells of an ordered heap. -/
theorem Heap.Ordered.lawful : (custodyOfHeap Heap.Ordered).Lawful (Node.Lacks "set") := by
  have bodies := addsCells.bodies
  refine custodyOfHeap.lawful ?_ ?_ ?_ bodies.goodMembers bodies.goodOperands ?_
  · intro heap value ordered made
    -- A cell can be put into a list only if it is held, so it was there before the list.
    refine ⟨ordered.slots.allocate (custodyOfHeap.has_of_made made), ordered.bodies.allocate ?_⟩
    rintro parameters body rfl
    obtain ⟨operands, making, rfl⟩ := made.body_of_function
    exact making.body
  · exact fun assigning => absurd assigning (Node.not_lacks_form _ _)
  · exact fun assigning => absurd assigning (Node.not_lacks_form _ _)
  · exact fun ordered isFunction => ordered.bodies _ _ _ isFunction

/--
Evaluating a node without assignments, where the stored functions have none either,
leaves every cell with the value that it had, however the evaluation ends: cells are
only added.  If every list was made after the cells in its slots, then so were those
that evaluation has added, and no list contains itself.
-/
theorem evaluate_only_adds_cells
    (limits : Limits)
    (fuel : Nat)
    {node : Node}
    {machine after : Machine}
    (lacks : node.Lacks "set")
    (stored : machine.heap.BodiesAll (Node.Lacks "set"))
    (ended : (evaluate limits fuel node machine).machine? = some after) :
    machine.heap.GrowsTo after.heap ∧
      after.heap.BodiesAll (Node.Lacks "set") ∧
      (machine.Closed → machine.heap.SlotsEarlier →
        after.Closed ∧ after.heap.SlotsEarlier ∧ after.heap.Acyclic) := by
  -- That cells are only added holds on any machine; the order of lists needs a closed one,
  -- since a name that means no cell yet could put a later cell into a list.
  have kept : (evaluate limits fuel node).Meets addsCells :=
    addsCells.lawful.evaluation limits fuel lacks
  obtain ⟨_, accepted⟩ := Ending.Meets.of_machine? (kept machine stored) ended
  refine ⟨accepted.relates, accepted.invariant, ?_⟩
  intro closed earlier
  have ordered : (evaluate limits fuel node).Delivers (custodyOfHeap Heap.Ordered) :=
    Heap.Ordered.lawful.evaluation limits fuel lacks
  obtain ⟨_, acceptedOrdered⟩ :=
    (ordered machine ⟨closed, earlier, stored⟩).meets.of_machine? ended
  obtain ⟨closedAfter, orderedAfter⟩ := acceptedOrdered.invariant
  exact ⟨closedAfter, orderedAfter.slots, orderedAfter.slots.acyclic⟩

/-- A call that makes a list of one list twice leaves that list and the function as they are. -/
theorem call_that_doubles_a_list_only_adds_cells :
    let body := Node.form "list" [.leaf (.word "x"), .leaf (.word "x")]
    let node := Node.form "f" [.leaf (.word "l")]
    let number := Heap.empty.allocate (.integer 7)
    let list := number.2.allocate (.list [number.1])
    let function := list.2.allocate (.function ["x"] body)
    let machine : Machine :=
      { Machine.start none with
        heap := function.2
        frames := (FrameStack.global.declare "l" list.1).declare "f" function.1 }
    node.Lacks "set" ∧
      machine.heap.BodiesAll (Node.Lacks "set") ∧
      ∃ after,
        (evaluate { maxIterations := none } 5 node machine).machine? = some after ∧
        after.heap.read ⟨3⟩ = .list [list.1, list.1] ∧
        machine.heap.GrowsTo after.heap ∧
        after.heap.BodiesAll (Node.Lacks "set") ∧
        after.Closed ∧ after.heap.SlotsEarlier ∧ after.heap.Acyclic := by
  intro body node number list function machine
  have lacksNode : node.Lacks "set" := by
    simp [node, Node.Lacks, Node.preorder, Node.preorderAll, Node.form]
  have lacksBody : body.Lacks "set" := by
    simp [body, Node.Lacks, Node.preorder, Node.preorderAll, Node.form]
  have stored : machine.heap.BodiesAll (Node.Lacks "set") := by
    refine ((Heap.bodiesAll_empty.allocate ?_).allocate ?_).allocate ?_
    · rintro parameters other ⟨⟩
    · rintro parameters other ⟨⟩
    · rintro parameters other ⟨⟩
      exact lacksBody
  have noneInNumber : ∀ slot, (Value.integer 7).HasSlot slot → Heap.empty.Has slot := by
    rintro slot ⟨slots, ⟨⟩, isSlot⟩
  have oneInList : ∀ slot, (Value.list [number.1]).HasSlot slot → number.2.Has slot := by
    rintro slot ⟨slots, ⟨⟩, isSlot⟩
    obtain rfl := List.mem_singleton.mp isSlot
    exact Heap.has_allocate _ _
  have noneInFunction : ∀ slot, (Value.function ["x"] body).HasSlot slot → list.2.Has slot := by
    rintro slot ⟨slots, ⟨⟩, isSlot⟩
  have closed : machine.Closed := by
    have made : Machine.Closed { Machine.start none with heap := function.2 } :=
      (((Machine.Closed.start none).allocate noneInNumber).allocate oneInList).allocate
        noneInFunction
    have hasList : function.2.Has list.1 := (Heap.has_allocate _ _).allocate _
    exact (made.declare "l" hasList).declare "f" (Heap.has_allocate _ _)
  have earlier : machine.heap.SlotsEarlier :=
    ((Heap.SlotsEarlier.empty.allocate noneInNumber).allocate oneInList).allocate noneInFunction
  obtain ⟨grows, bodies, rest⟩ :=
    evaluate_only_adds_cells { maxIterations := none } 5 lacksNode stored rfl
  exact ⟨lacksNode, stored, _, rfl, rfl, grows, bodies, rest closed earlier⟩

/-! ## Programs without assignments -/

namespace Program

/-- On a new machine a program without assignments makes no list that contains itself. -/
theorem acyclic_of_lacks
    {limits : Limits}
    {fuel : Nat}
    {members : List Node}
    {room : Option Nat}
    {after : Machine}
    (lacks : ∀ operands, Node.form "set" operands ∉ Node.preorderAll members)
    (ended : (execute limits fuel members (Machine.start room)).machine? = some after) :
    after.heap.Acyclic := by
  have ordered := Heap.Ordered.lawful.execute limits fuel (Node.lacks_of_preorderAll lacks)
    ⟨.start room, .empty, Heap.bodiesAll_empty⟩
  obtain ⟨_, accepted⟩ := ordered.meets.of_machine? ended
  exact accepted.invariant.2.slots.acyclic

end Program

end CellScript
