import CellScript.Proofs.FunctionBodies

namespace CellScript

/-!
# Closed heaps

Cells are made by the heap alone and are never given back.  So on a machine on which
scripts run, every cell that a name means and every slot of a list is a cell of the
heap, and evaluation never comes to any other cell.
-/

/-! ## Slots -/

/-- A value is a list with some cell among its slots. -/
def Value.HasSlot (value : Value) (slot : Cell) : Prop :=
  ∃ slots, value = .list slots ∧ slot ∈ slots

namespace Heap

/-- A heap has made a cell. -/
def Has (heap : Heap) (cell : Cell) : Prop :=
  cell.index < heap.size

/-- A cell holds a list with some cell among its slots. -/
def HasSlot (heap : Heap) (owner slot : Cell) : Prop :=
  (heap.read owner).HasSlot slot

variable {heap : Heap} {value : Value} {owner slot : Cell}

/-- A cell that the heap does not have reads as absent. -/
theorem has_of_read
    {cell : Cell}
    (isValue : heap.read cell ≠ .none) :
    heap.Has cell := by
  refine Nat.lt_of_not_le fun beyond => isValue ?_
  rw [read, Array.getElem?_eq_none beyond, Option.getD_none]

/-- A heap that gains a cell keeps those it has. -/
theorem Has.allocate
    {cell : Cell}
    (has : heap.Has cell)
    (value : Value) :
    (heap.allocate value).2.Has cell := by
  rw [Has, size_allocate]
  exact Nat.lt_succ_of_lt has

theorem has_allocate
    (heap : Heap)
    (value : Value) :
    (heap.allocate value).2.Has (heap.allocate value).1 := by
  rw [Has, size_allocate]
  exact Nat.lt_succ_self heap.size

/-- Overwriting a cell adds and removes none. -/
@[simp]
theorem has_write
    (heap : Heap)
    (written : Cell)
    (value : Value) :
    (heap.write written value).Has = heap.Has := by
  funext cell
  rw [Has, size_write, Has]

/-- A slot after making a cell is one of the value made, or it was one before. -/
theorem HasSlot.of_allocate
    (hasSlot : (heap.allocate value).2.HasSlot owner slot) :
    owner = (heap.allocate value).1 ∧ value.HasSlot slot ∨ heap.HasSlot owner slot := by
  rcases heap.read_allocate_cases value owner with rfl | isOld
  · rw [HasSlot, read_allocate_self] at hasSlot
    exact .inl ⟨rfl, hasSlot⟩
  · rw [HasSlot, isOld] at hasSlot
    exact .inr hasSlot

/-- A slot after writing a value is one of the value written, or it was one before. -/
theorem HasSlot.of_write
    {written : Cell}
    (hasSlot : (heap.write written value).HasSlot owner slot) :
    value.HasSlot slot ∨ heap.HasSlot owner slot := by
  rcases heap.read_write_cases written owner value with isNew | isOld
  · rw [HasSlot, isNew] at hasSlot
    exact .inl hasSlot
  · rw [HasSlot, isOld] at hasSlot
    exact .inr hasSlot

/-- Splicing makes no list. -/
theorem HasSlot.of_spliced
    {position : Nat}
    {source : Value}
    (hasSlot : (Evaluation.spliced heap (heap.read owner) position source).HasSlot slot) :
    heap.HasSlot owner slot := by
  rcases heap.spliced_cases (heap.read owner) position source with ⟨content, isText⟩ | same
  · obtain ⟨slots, isList, _⟩ := hasSlot
    cases isText.symm.trans isList
  · rwa [same] at hasSlot

end Heap

/-! ## Bound cells -/

namespace FrameStack

/-- Something holds of every cell that is bound in some frame, be it hidden or not. -/
def BoundAll (kept : Cell → Prop) (stack : FrameStack) : Prop :=
  ∀ frame ∈ stack.frames, ∀ name cell, frame.lookup? name = some cell → kept cell

variable {kept : Cell → Prop} {stack : FrameStack}

theorem boundAll_global :
    global.BoundAll kept := by
  intro frame isFrame name cell found
  obtain rfl : frame = Frame.empty := List.mem_singleton.mp isFrame
  cases found

/-- Bound cells of which more is known are bound cells of which less is known. -/
theorem BoundAll.mono
    {wider : Cell → Prop}
    (all : stack.BoundAll kept)
    (widens : ∀ cell, kept cell → wider cell) :
    stack.BoundAll wider :=
  fun frame isFrame name cell found => widens cell (all frame isFrame name cell found)

theorem BoundAll.push
    (all : stack.BoundAll kept) :
    stack.push.BoundAll kept := by
  intro frame isFrame name cell found
  rcases List.mem_cons.mp isFrame with rfl | isOld
  · cases found
  · exact all frame isOld name cell found

theorem BoundAll.pop
    (all : stack.BoundAll kept) :
    stack.pop.BoundAll kept := by
  obtain ⟨top, below⟩ := stack
  cases below with
  | nil => exact all
  | cons next rest => exact fun frame isFrame => all frame (List.mem_cons_of_mem top isFrame)

/-- Binding a name to a cell that is kept leaves all bound cells kept. -/
theorem BoundAll.declare
    (all : stack.BoundAll kept)
    (name : String)
    {cell : Cell}
    (isKept : kept cell) :
    (stack.declare name cell).BoundAll kept := by
  intro frame isFrame other found isFound
  rcases List.mem_cons.mp isFrame with rfl | isBelow
  · change (stack.top.bind name cell).lookup? other = some found at isFound
    by_cases same : other = name
    · subst same
      rw [Frame.lookup?_bind_self] at isFound
      cases isFound
      exact isKept
    · rw [Frame.lookup?_bind_of_ne _ _ same] at isFound
      exact all stack.top List.mem_cons_self other found isFound
  · exact all frame (List.mem_cons_of_mem _ isBelow) other found isFound

/-- The cell that a name means is bound in one of the frames. -/
theorem BoundAll.of_lookup?
    {name : String}
    {cell : Cell}
    (all : stack.BoundAll kept)
    (found : stack.lookup? name = some cell) :
    kept cell := by
  obtain ⟨frame, isFrame, inFrame⟩ := List.exists_of_findSome?_eq_some found
  exact all frame isFrame name cell inFrame

end FrameStack

/-! ## Closed machines -/

/-- Every cell that a name or a slot of a list refers to is a cell of the heap. -/
structure Machine.Closed (machine : Machine) : Prop where
  names : machine.frames.BoundAll machine.heap.Has
  slots : ∀ owner slot, machine.heap.HasSlot owner slot → machine.heap.Has slot

namespace Machine.Closed

variable {machine : Machine}

theorem start
    (room : Option Nat) :
    (Machine.start room).Closed where
  names := FrameStack.boundAll_global
  slots := nofun

/-- A new cell does not dangle, and neither do its slots if they are there already. -/
theorem allocate
    (closed : machine.Closed)
    {value : Value}
    (within : ∀ slot, value.HasSlot slot → machine.heap.Has slot) :
    Closed { machine with heap := (machine.heap.allocate value).2 } where
  names := closed.names.mono fun _ has => has.allocate value
  slots owner slot hasSlot := by
    rcases hasSlot.of_allocate with ⟨_, isNew⟩ | isOld
    · exact (within slot isNew).allocate value
    · exact (closed.slots owner slot isOld).allocate value

/-- Overwriting a value leaves a machine closed if the slots of the new value are there. -/
theorem write
    (closed : machine.Closed)
    (written : Cell)
    {value : Value}
    (within : ∀ slot, value.HasSlot slot → machine.heap.Has slot) :
    Closed { machine with heap := machine.heap.write written value } where
  names := by
    rw [Heap.has_write]
    exact closed.names
  slots owner slot hasSlot := by
    rw [Heap.has_write]
    rcases hasSlot.of_write with isNew | isOld
    · exact within slot isNew
    · exact closed.slots owner slot isOld

/-- Binding a name to a cell of the heap leaves a machine closed. -/
theorem declare
    (closed : machine.Closed)
    (name : String)
    {cell : Cell}
    (has : machine.heap.Has cell) :
    (machine.withFrames fun frames => frames.declare name cell).Closed where
  names := closed.names.declare name has
  slots := closed.slots

theorem push
    (closed : machine.Closed) :
    (machine.withFrames FrameStack.push).Closed where
  names := closed.names.push
  slots := closed.slots

theorem pop
    (closed : machine.Closed) :
    (machine.withFrames FrameStack.pop).Closed where
  names := closed.names.pop
  slots := closed.slots

end Machine.Closed

/-! ## Custody of the cells of the heap -/

/-- The cells of the heap may be held, on closed machines whose heaps have a further property. -/
def custodyOfHeap (kept : Heap → Prop) : Custody where
  invariant machine := machine.Closed ∧ kept machine.heap
  relates before exit after :=
    (∀ cell, before.heap.Has cell → after.heap.Has cell) ∧
      ∀ cell, exit = some (.returning cell) → after.heap.Has cell
  holds := Heap.Has

namespace custodyOfHeap

/-- The slots of a value that a form makes are cells of the heap. -/
theorem has_of_made
    {good : Node → Prop}
    {heap : Heap}
    {value : Value}
    (made : value.Made good heap.Has heap) :
    ∀ slot, value.HasSlot slot → heap.Has slot := by
  rintro slot ⟨slots, rfl, isSlot⟩
  exact made.held_of_list slot isSlot

/-- A write is accepted if its slots are there and it keeps what the heap keeps. -/
theorem accepts_write
    {kept : Heap → Prop}
    {machine : Machine}
    {written : Cell}
    {value : Value}
    (within : ∀ slot, value.HasSlot slot → machine.heap.Has slot)
    (holds : (custodyOfHeap kept).invariant machine)
    (isKept : kept (machine.heap.write written value)) :
    (custodyOfHeap kept).Accepts machine none
      { machine with heap := machine.heap.write written value } where
  invariant := ⟨holds.1.write written within, isKept⟩
  relates := by
    refine ⟨?_, nofun⟩
    intro cell has
    rwa [Heap.has_write]

/--
The cells of the heap are held in lawful custody when the further property is kept by
the values that forms make and, where there are assignments, by assigning.
-/
theorem lawful
    {kept : Heap → Prop}
    {good : Node → Prop}
    (allocates : ∀ {heap value},
      kept heap → value.Made good heap.Has heap → kept (heap.allocate value).2)
    (assigns : ∀ {operands heap target source},
      good (.form "set" operands) → kept heap → kept (heap.assign target source))
    (splices : ∀ {operands heap owner position source},
      good (.form "set" operands) → kept heap →
      kept
        (heap.write owner
          (Evaluation.spliced heap (heap.read owner) position (heap.read source))))
    (members : ∀ {members},
      Node.isSequence members = true →
      good (.block members) →
      ∀ member ∈ members, good member)
    (operands : ∀ {word operands},
      word ≠ "fn" →
      good (.form word operands) →
      ∀ operand ∈ operands, good operand)
    (called : ∀ {heap cell parameters body},
      kept heap → heap.read cell = .function parameters body → good body) :
    (custodyOfHeap kept).Lawful good where
  stays _ := ⟨fun _ has => has, nofun⟩
  joins earlier later := ⟨fun cell has => later.1 cell (earlier.1 cell has), later.2⟩
  fails _ _ := ⟨fun _ has => has, nofun⟩
  returns _ _ has := by
    refine ⟨fun _ has => has, ?_⟩
    rintro _ ⟨⟩
    exact has
  takes related := ⟨related.1, nofun⟩
  carries accepted := accepted.relates.2 _ rfl
  keeps accepted has := accepted.relates.1 _ has
  names holds found := holds.1.names.of_lookup? found
  slots holds _ isList isSlot := holds.1.slots _ _ ⟨_, isList, isSlot⟩
  makes holds made :=
    ⟨⟨⟨holds.1.allocate (has_of_made made), allocates holds.2 made⟩,
        fun _ has => has.allocate _, nofun⟩,
      Heap.has_allocate _ _⟩
  assigns assigning holds _ _ :=
    accepts_write (fun slot isSlot => holds.1.slots _ slot isSlot) holds
      (assigns assigning holds.2)
  splices assigning holds _ _ :=
    accepts_write (fun slot isSlot => holds.1.slots _ slot (Heap.HasSlot.of_spliced isSlot)) holds
      (splices assigning holds.2)
  declares holds has := ⟨⟨holds.1.declare _ has, holds.2⟩, fun _ has => has, nofun⟩
  prints holds _ :=
    Action.printLine_meetsAt
      ⟨⟨⟨holds.1.names, holds.1.slots⟩, holds.2⟩, fun _ has => has, nofun⟩
      ⟨⟨⟨holds.1.names, holds.1.slots⟩, holds.2⟩, fun _ has => has, nofun⟩
  pushes holds := ⟨holds.1.push, holds.2⟩
  pops _ accepted := ⟨⟨accepted.invariant.1.pop, accepted.invariant.2⟩, accepted.relates⟩
  goodMembers := members
  goodOperands := operands
  goodBody holds isFunction := called holds.2 isFunction

end custodyOfHeap

/-! ## Programs -/

namespace Custody.Lawful

variable {custody : Custody} {good : Node → Prop} {members : List Node}

/-- The body of a program delivers the cell of its last member, or of a return signal. -/
theorem programBody
    (lawful : custody.Lawful good)
    (limits : Limits)
    (fuel : Nat)
    (goodMembers : ∀ member ∈ members, good member) :
    (Program.body limits fuel members).Delivers custody := by
  intro machine holds
  have evaluated : ∀ member ∈ members, (evaluate limits fuel member).Delivers custody :=
    fun member isMember => lawful.evaluation limits fuel (goodMembers member isMember)
  refine lawful.catchReturn (lawful.bind (lawful.nothing machine holds) ?_)
  intro absent between accepted held
  exact lawful.lastOf evaluated accepted.invariant held

/-- A program keeps lawful custody; its result is a value and no cell. -/
theorem execute
    (lawful : custody.Lawful good)
    (limits : Limits)
    (fuel : Nat)
    (goodMembers : ∀ member ∈ members, good member)
    {machine : Machine}
    (holds : custody.invariant machine) :
    (Program.execute limits fuel members).Yields custody machine fun _ _ => True := by
  have disciplined : (Program.body limits fuel members).Meets frameDiscipline :=
    frameDiscipline.lawful.programBody limits fuel fun _ _ => trivial
  unfold Program.execute
  rw [Action.inScope_eq_inFrame disciplined]
  refine lawful.bind
    (lawful.inFrame holds
      (lawful.programBody limits fuel goodMembers _ (lawful.pushes holds))) ?_
  intro cell after accepted _
  exact lawful.pure accepted.invariant trivial

end Custody.Lawful

namespace Machine

/-- All nodes may be evaluated in custody of the cells of the heap, assignments included. -/
theorem custodyOfClosed :
    (custodyOfHeap fun _ => True).Lawful fun _ => True :=
  custodyOfHeap.lawful (fun _ _ => trivial) (fun _ _ => trivial) (fun _ _ => trivial)
    (fun _ _ _ _ => trivial) (fun _ _ _ _ => trivial) (fun _ _ => trivial)

/-- Evaluating any node on a closed machine leaves a closed machine, however it ends. -/
theorem Closed.of_evaluate
    {limits : Limits}
    {fuel : Nat}
    {node : Node}
    {machine after : Machine}
    (closed : machine.Closed)
    (ended : (evaluate limits fuel node machine).machine? = some after) :
    after.Closed := by
  have kept : (evaluate limits fuel node).Delivers (custodyOfHeap fun _ => True) :=
    custodyOfClosed.evaluation limits fuel trivial
  obtain ⟨_, accepted⟩ := (kept machine ⟨closed, trivial⟩).meets.of_machine? ended
  exact accepted.invariant.1

/-- A cell of the heap is one still after a computation that keeps custody of the cells. -/
theorem Closed.has_of_delivers
    {action : Action Cell}
    {machine after : Machine}
    {cell held : Cell}
    (closed : machine.Closed)
    (delivers : action.Delivers (custodyOfHeap fun _ => True))
    (ended : action machine = .done cell after)
    (has : machine.heap.Has held) :
    after.heap.Has held := by
  have yields := delivers machine ⟨closed, trivial⟩
  rw [Action.Yields, ended] at yields
  obtain ⟨accepted, -⟩ := yields
  exact accepted.relates.1 held has

/-- A machine on which nothing but scripts has been run is closed. -/
theorem Ran.closed
    {machine : Machine}
    (ran : machine.Ran) :
    machine.Closed := by
  induction ran with
  | start room => exact .start room
  | script limits fuel source _ ended inductionHypothesis =>
      rw [Program.run] at ended
      cases read : Node.ofSource source with
      | error fault =>
          rw [read] at ended
          cases ended
          exact inductionHypothesis
      | ok members =>
          rw [read] at ended
          have any : ∀ member ∈ members, True := fun _ _ => trivial
          have kept := custodyOfClosed.execute limits fuel any ⟨inductionHypothesis, trivial⟩
          obtain ⟨_, accepted⟩ := kept.meets.of_machine? ended
          exact accepted.invariant.1

end Machine

end CellScript
