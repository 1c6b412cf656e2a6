import CellScript.Proofs.FrameDiscipline

namespace CellScript

/-!
# Stored bodies

Functions come from function forms only, and each keeps its body as it stands in
the form.  So what holds of all bodies of function forms in the trees that are
evaluated holds of the bodies of all functions in the heap.
-/

/-! ## Trees without some form -/

namespace Node

/-- No block in a tree has a word as its head. -/
def Lacks (word : String) (node : Node) : Prop :=
  ∀ operands, form word operands ∉ node.preorder

/-- Members lack a kind of form if it stands nowhere in them. -/
theorem lacks_of_preorderAll
    {word : String}
    {members : List Node}
    (lacks : ∀ operands, form word operands ∉ preorderAll members) :
    ∀ member ∈ members, member.Lacks word :=
  fun member isMember operands isBelow =>
    lacks operands (mem_preorderAll.mpr ⟨member, isMember, isBelow⟩)

theorem Lacks.members
    {word : String}
    {members : List Node}
    (lacks : (Node.block members).Lacks word) :
    ∀ member ∈ members, member.Lacks word := by
  apply lacks_of_preorderAll
  intro operands isBelow
  apply lacks operands
  rw [preorder]
  exact List.mem_cons_of_mem _ isBelow

theorem not_lacks_form
    (word : String)
    (operands : List Node) :
    ¬(form word operands).Lacks word := by
  intro lacks
  apply lacks operands
  rw [form, preorder]
  exact List.mem_cons_self

/-- Trees that lack a word as a head have operands that lack it. -/
theorem Lacks.operands
    {head word : String}
    {operands : List Node}
    (lacks : (form head operands).Lacks word) :
    ∀ operand ∈ operands, operand.Lacks word :=
  fun operand isOperand => lacks.members operand (List.mem_cons_of_mem _ isOperand)

/-- The body that a function form stores lacks what the form lacks. -/
theorem Lacks.body
    {word : String}
    {operands : List Node}
    (lacks : (form "fn" operands).Lacks word) :
    (operands[1]?.getD (block [])).Lacks word := by
  cases found : operands[1]? with
  | none => simp [Lacks, preorder, preorderAll, form]
  | some body => exact lacks.operands body (List.mem_of_getElem? found)

end Node

/-! ## Heaps -/

namespace Heap

/-- Something holds of the body of every function in a heap. -/
def BodiesAll (kept : Node → Prop) (heap : Heap) : Prop :=
  ∀ cell parameters body, heap.read cell = .function parameters body → kept body

variable {kept : Node → Prop} {heap : Heap}

theorem bodiesAll_empty :
    empty.BodiesAll kept :=
  nofun

/-- A cell of a heap with one more cell is the new cell, or an old one, or none. -/
theorem read_allocate_cases
    (heap : Heap)
    (value : Value)
    (cell : Cell) :
    cell = (heap.allocate value).1 ∨
      (heap.allocate value).2.read cell = heap.read cell := by
  by_cases isNew : cell.index = heap.values.size
  · exact .inl (congrArg Cell.mk isNew)
  · right
    simp [allocate, read, Array.getElem?_push, isNew]

/-- After a write a cell holds the value written or the one that it held before. -/
theorem read_write_cases
    (heap : Heap)
    (written cell : Cell)
    (value : Value) :
    (heap.write written value).read cell = value ∨
      (heap.write written value).read cell = heap.read cell := by
  by_cases same : cell = written
  · subst same
    by_cases within : cell.index < heap.size
    · exact .inl (read_write_self value within)
    · right
      rw [size, Nat.not_lt] at within
      simp [write, read, Array.setIfInBounds, Nat.not_lt.mpr within]
  · exact .inr (read_write_of_ne value same)

/-- A new function has to have a body that is kept; other values have none. -/
theorem BodiesAll.allocate
    (all : heap.BodiesAll kept)
    {value : Value}
    (bodies : ∀ parameters body, value = .function parameters body → kept body) :
    (heap.allocate value).2.BodiesAll kept := by
  intro cell parameters body holds
  rcases heap.read_allocate_cases value cell with rfl | isOld
  · exact bodies parameters body ((heap.read_allocate_self value).symm.trans holds)
  · exact all cell parameters body (isOld.symm.trans holds)

/-- Overwriting a cell with a value whose body, if any, is kept leaves all bodies kept. -/
theorem BodiesAll.write
    (all : heap.BodiesAll kept)
    (written : Cell)
    {value : Value}
    (bodies : ∀ parameters body, value = .function parameters body → kept body) :
    (heap.write written value).BodiesAll kept := by
  intro cell parameters body holds
  rcases heap.read_write_cases written cell value with isNew | isOld
  · exact bodies parameters body (isNew.symm.trans holds)
  · exact all cell parameters body (isOld.symm.trans holds)

/-- Splicing makes a text, or nothing new. -/
theorem spliced_cases
    (heap : Heap)
    (owner : Value)
    (position : Nat)
    (source : Value) :
    (∃ content, Evaluation.spliced heap owner position source = .text content) ∨
      Evaluation.spliced heap owner position source = owner := by
  cases owner with
  | text content => exact .inl ⟨_, rfl⟩
  | none | boolean | integer | list | function => exact .inr rfl

/-- Splicing makes no function. -/
theorem BodiesAll.spliced
    (all : heap.BodiesAll kept)
    {owner : Cell}
    {position : Nat}
    {source : Value}
    {parameters : List String}
    {body : Node}
    (isFunction :
      Evaluation.spliced heap (heap.read owner) position source = .function parameters body) :
    kept body := by
  rcases heap.spliced_cases (heap.read owner) position source with ⟨content, isText⟩ | same
  · cases isText.symm.trans isFunction
  · exact all owner _ _ (same.symm.trans isFunction)

end Heap

/-- Something holds of the body of every function in the heap, however evaluation ends. -/
def storedBodies (kept : Node → Prop) : Contract where
  invariant machine := machine.heap.BodiesAll kept
  relates _ _ _ := True

namespace storedBodies

/--
Stored bodies stay good if the bodies that function forms store are, and if good nodes
have good parts.
-/
theorem lawful
    {kept good : Node → Prop}
    (stored : ∀ {operands},
      good (.form "fn" operands) → kept (operands[1]?.getD (.block [])))
    (called : ∀ {body}, kept body → good body)
    (members : ∀ {members},
      Node.isSequence members = true →
      good (.block members) →
      ∀ member ∈ members, good member)
    (operands : ∀ {word operands},
      word ≠ "fn" →
      good (.form word operands) →
      ∀ operand ∈ operands, good operand) :
    (storedBodies kept).Lawful good where
  stays _ := trivial
  joins _ _ := trivial
  fails _ _ := trivial
  returns _ _ := trivial
  takes _ := trivial
  allocates plain holds := by
    refine ⟨Heap.BodiesAll.allocate holds ?_, trivial⟩
    rintro parameters body rfl
    cases plain
  allocatesFunction good holds := by
    refine ⟨Heap.BodiesAll.allocate holds ?_, trivial⟩
    rintro parameters body ⟨⟩
    exact stored good
  assigns _ holds :=
    ⟨Heap.BodiesAll.write holds _ fun _ _ isFunction => holds _ _ _ isFunction, trivial⟩
  splices _ holds :=
    ⟨Heap.BodiesAll.write holds _ fun _ _ isFunction =>
      Heap.BodiesAll.spliced holds isFunction, trivial⟩
  declares holds := ⟨holds, trivial⟩
  prints _ holds := Action.printLine_meetsAt ⟨holds, trivial⟩ ⟨holds, trivial⟩
  pushes holds := holds
  pops _ accepted := ⟨accepted.invariant, trivial⟩
  goodMembers := members
  goodOperands := operands
  goodBody holds isFunction := called (holds _ _ _ isFunction)

end storedBodies

end CellScript
