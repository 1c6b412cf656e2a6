import CellScript.Proofs.Contract

namespace CellScript

/-!
# Custody

A contract says what happens to machines.  Custody says in addition which cells a
computation may hold: those that names mean, those in the slots of lists it holds,
and those it makes.  A form makes new values from literals and from what it holds,
so what holds of these can be shown of all values that a script ever makes.
-/

/-- A contract together with the cells that may be held. -/
structure Custody extends Contract where
  /-- A computation may hold a cell of a heap. -/
  holds : Heap → Cell → Prop

/-- A leaf is a good node, or the head of one. -/
def Leaf.Stands (good : Node → Prop) (leaf : Leaf) : Prop :=
  good (.leaf leaf) ∨ ∃ operands, good (.block (.leaf leaf :: operands))

/-- The values that forms make from literals, from other good nodes and from cells that are held. -/
inductive Value.Made (good : Node → Prop) (holds : Cell → Prop) (heap : Heap) : Value → Prop where
  | none :
      Made good holds heap .none
  | boolean (value : Bool) :
      Made good holds heap (.boolean value)
  | integer
      {value : Int64}
      (stands : (Leaf.number value).Stands good) :
      Made good holds heap (.integer value)
  | text
      {content : String}
      (stands : (Leaf.text content).Stands good) :
      Made good holds heap (.text content)
  | character
      {owner index : Cell}
      {character : Char}
      (held : holds owner)
      (isCharacter : heap.character? owner index = some character) :
      Made good holds heap (.text (String.ofList [character]))
  | result
      {left right : Cell}
      (operator : Arithmetic)
      (heldLeft : holds left)
      (heldRight : holds right) :
      Made good holds heap (operator.apply heap left right)
  | list
      {slots : List Cell}
      (held : ∀ slot ∈ slots, holds slot) :
      Made good holds heap (.list slots)
  | function
      {operands : List Node}
      (parameters : List String)
      (making : good (.form "fn" operands)) :
      Made good holds heap (.function parameters (operands[1]?.getD (.block [])))

/-- The result of arithmetic is absent, an integer or a text. -/
theorem Arithmetic.onScalars_cases
    (operator : Arithmetic)
    (left right : Scalar) :
    operator.onScalars left right = .none ∨
      (∃ value, operator.onScalars left right = .integer value) ∨
      ∃ content, operator.onScalars left right = .text content := by
  unfold Arithmetic.onScalars
  split
  · exact .inr (.inr ⟨_, rfl⟩)
  · split
    · split
      · exact .inr (.inl ⟨_, rfl⟩)
      · exact .inl rfl
    · exact .inl rfl

namespace Value.Made

variable {good : Node → Prop} {holds : Cell → Prop} {heap : Heap}

/-- The slots of a list that a form makes are held. -/
theorem held_of_list
    {slots : List Cell}
    (made : (Value.list slots).Made good holds heap) :
    ∀ slot ∈ slots, holds slot := by
  generalize isList : Value.list slots = value at made
  cases made with
  | list held =>
      cases isList
      exact held
  | result operator =>
      rcases operator.onScalars_cases _ _ with absent | ⟨_, isInteger⟩ | ⟨_, isText⟩
      · cases isList.trans absent
      · cases isList.trans isInteger
      · cases isList.trans isText
  | none | boolean | integer | text | character | function => cases isList

/-- The body of a function that a form makes is the one in the form. -/
theorem body_of_function
    {parameters : List String}
    {body : Node}
    (made : (Value.function parameters body).Made good holds heap) :
    ∃ operands, good (.form "fn" operands) ∧ body = operands[1]?.getD (.block []) := by
  generalize isFunction : Value.function parameters body = value at made
  cases made with
  | function others making =>
      cases isFunction
      exact ⟨_, making, rfl⟩
  | result operator =>
      rcases operator.onScalars_cases _ _ with absent | ⟨_, isInteger⟩ | ⟨_, isText⟩
      · cases isFunction.trans absent
      · cases isFunction.trans isInteger
      · cases isFunction.trans isText
  | none | boolean | integer | text | character | list => cases isFunction

end Value.Made

/-- A text is the printed form of what was held at some time. -/
def Custody.Rendered (custody : Custody) (text : String) : Prop :=
  ∃ machine cell,
    custody.invariant machine ∧ custody.holds machine.heap cell ∧
      text = (machine.heap.read cell).render machine.heap

/--
Custody that the nodes satisfying `good` can keep, calls apart.  As for contracts,
steps that a script does not take freely are asked for only where a form takes them.
-/
structure Custody.Steady (custody : Custody) (good : Node → Prop) : Prop where
  /-- Doing nothing is allowed. -/
  stays : ∀ {machine},
    custody.invariant machine → custody.relates machine none machine
  /-- What follows an ordinary end may be joined to it. -/
  joins : ∀ {before between after exit},
    custody.relates before none between →
    custody.relates between exit after →
    custody.relates before exit after
  /-- A fault is raised without further ado. -/
  fails : ∀ {machine fault},
    Fault.isOfRun fault = true →
    custody.invariant machine →
    custody.relates machine (some (.failing fault)) machine
  /-- A return signal is raised by a return form. -/
  returns : ∀ {machine operands cell},
    good (.form "return" operands) →
    custody.invariant machine →
    custody.holds machine.heap cell →
    custody.relates machine (some (.returning cell)) machine
  /-- A return signal that is taken counts as an ordinary end. -/
  takes : ∀ {before cell after},
    custody.relates before (some (.returning cell)) after →
    custody.relates before none after
  /-- The cell that a return signal carries may be held. -/
  carries : ∀ {before cell after},
    custody.Accepts before (some (.returning cell)) after →
    custody.holds after.heap cell
  /-- A cell that may be held may be held later on. -/
  keeps : ∀ {before exit after cell},
    custody.Accepts before exit after →
    custody.holds before.heap cell →
    custody.holds after.heap cell
  /-- A cell that a name means may be held. -/
  names : ∀ {machine name cell},
    custody.invariant machine →
    machine.frames.lookup? name = some cell →
    custody.holds machine.heap cell
  /-- The cells in the slots of a list may be held. -/
  slots : ∀ {machine owner slots slot},
    custody.invariant machine →
    custody.holds machine.heap owner →
    machine.heap.read owner = .list slots →
    slot ∈ slots →
    custody.holds machine.heap slot
  /-- A value that a form makes gets a cell, which may be held. -/
  makes : ∀ {machine value},
    custody.invariant machine →
    value.Made good (custody.holds machine.heap) machine.heap →
    custody.Accepts machine none { machine with heap := (machine.heap.allocate value).2 } ∧
      custody.holds (machine.heap.allocate value).2 (machine.heap.allocate value).1
  /-- An assignment copies the value of a cell. -/
  assigns : ∀ {machine operands target source},
    good (.form "set" operands) →
    custody.invariant machine →
    custody.holds machine.heap target →
    custody.holds machine.heap source →
    custody.Accepts machine none
      { machine with heap := machine.heap.assign target source }
  /-- An assignment overwrites a cell with a value spliced from the one it holds. -/
  splices : ∀ {machine operands owner position source},
    good (.form "set" operands) →
    custody.invariant machine →
    custody.holds machine.heap owner →
    custody.holds machine.heap source →
    custody.Accepts machine none
      { machine with
        heap :=
          machine.heap.write owner
            (Evaluation.spliced machine.heap (machine.heap.read owner) position
              (machine.heap.read source)) }
  /-- A name is bound in the newest frame. -/
  declares : ∀ {machine name cell},
    custody.invariant machine →
    custody.holds machine.heap cell →
    custody.Accepts machine none
      (machine.withFrames fun frames => frames.declare name cell)
  /-- A line is printed. -/
  prints : ∀ {machine texts},
    custody.invariant machine →
    (∀ text ∈ texts, custody.Rendered text) →
    (Action.printLine (String.intercalate " " texts)).MeetsAt custody.toContract machine
  /-- A new frame does no harm. -/
  pushes : ∀ {machine},
    custody.invariant machine →
    custody.invariant (machine.withFrames FrameStack.push)
  /-- Dropping the new frame leads back. -/
  pops : ∀ {before exit after},
    custody.invariant before →
    custody.Accepts (before.withFrames FrameStack.push) exit after →
    custody.Accepts before exit (after.withFrames FrameStack.pop)
  /-- The members of a sequence are evaluated. -/
  goodMembers : ∀ {members},
    Node.isSequence members = true →
    good (.block members) →
    ∀ member ∈ members, good member
  /-- The operands of a form are evaluated, unless it makes a function. -/
  goodOperands : ∀ {word operands},
    word ≠ "fn" →
    good (.form word operands) →
    ∀ operand ∈ operands, good operand

/-- Custody that evaluation of the nodes satisfying `good` can keep, calls included. -/
structure Custody.Lawful (custody : Custody) (good : Node → Prop) : Prop
    extends custody.Steady good where
  /-- The body of a function is evaluated when the function is called. -/
  goodBody : ∀ {machine cell parameters body},
    custody.invariant machine →
    machine.heap.read cell = .function parameters body →
    good body

/-- An ending is right for the machine at the start, and a value it comes to is as wanted. -/
def Ending.Yields
    {α : Type}
    (custody : Custody)
    (before : Machine)
    (wanted : α → Heap → Prop) :
    Ending α → Prop
  | .done value after => custody.Accepts before none after ∧ wanted value after.heap
  | .left exit after => custody.Accepts before (some exit) after
  | .unfinished => True

/-- A right ending meets the contract. -/
theorem Ending.Yields.meets
    {α : Type}
    {custody : Custody}
    {before : Machine}
    {wanted : α → Heap → Prop}
    {ending : Ending α}
    (yields : ending.Yields custody before wanted) :
    ending.Meets custody.toContract before := by
  cases ending with
  | done value after => exact yields.1
  | left exit after => exact yields
  | unfinished => trivial

/-- A computation on a machine keeps the contract and comes to a value as wanted. -/
def Action.Yields
    {α : Type}
    (custody : Custody)
    (machine : Machine)
    (action : Action α)
    (wanted : α → Heap → Prop) : Prop :=
  (action machine).Yields custody machine wanted

/-- A computation comes to a cell that may be held, wherever the invariant holds. -/
def Action.Delivers (custody : Custody) (action : Action Cell) : Prop :=
  ∀ machine, custody.invariant machine → action.Yields custody machine fun cell heap =>
    custody.holds heap cell

/-- The bodies of stored functions deliver once their return signals are taken. -/
def Custody.DeliverBodies (custody : Custody) (evaluate : Evaluation.Evaluator) : Prop :=
  ∀ {machine function parameters body},
    custody.invariant machine →
    machine.heap.read function = .function parameters body →
    (Action.catchReturn (evaluate body)).Delivers custody

namespace Custody.Steady

variable {custody : Custody} {good : Node → Prop} {α β : Type} {machine : Machine}

/-- What follows an accepted ordinary end may be joined to it. -/
theorem yields_of_accepts
    (steady : custody.Steady good)
    {between : Machine}
    {ending : Ending α}
    {wanted : α → Heap → Prop}
    (first : custody.Accepts machine none between)
    (second : ending.Yields custody between wanted) :
    ending.Yields custody machine wanted := by
  cases ending with
  | done value after =>
      obtain ⟨accepted, isWanted⟩ := second
      exact ⟨⟨accepted.invariant, steady.joins first.relates accepted.relates⟩, isWanted⟩
  | left exit after =>
      exact ⟨second.invariant, steady.joins first.relates second.relates⟩
  | unfinished => trivial

theorem pure
    (steady : custody.Steady good)
    {value : α}
    {wanted : α → Heap → Prop}
    (holds : custody.invariant machine)
    (isWanted : wanted value machine.heap) :
    Action.Yields custody machine (Pure.pure value) wanted :=
  ⟨⟨holds, steady.stays holds⟩, isWanted⟩

/-- What the first computation yields is what the second one may rely on. -/
theorem bind
    (steady : custody.Steady good)
    {action : Action α}
    {next : α → Action β}
    {wanted : α → Heap → Prop}
    {wantedNext : β → Heap → Prop}
    (first : action.Yields custody machine wanted)
    (second : ∀ value between,
      custody.Accepts machine none between →
      wanted value between.heap →
      (next value).Yields custody between wantedNext) :
    Action.Yields custody machine (action >>= next) wantedNext := by
  rw [Action.Yields] at first
  rw [Action.Yields, Action.bind_apply]
  cases ended : action machine with
  | done value between =>
      rw [ended] at first
      obtain ⟨accepted, isWanted⟩ := first
      exact steady.yields_of_accepts accepted (second value between accepted isWanted)
  | left exit between =>
      rw [ended] at first
      exact first
  | unfinished => trivial

/-- What is done with a view of the machine is done on that machine. -/
theorem look
    {view : Machine → α}
    {next : α → Action β}
    {wanted : β → Heap → Prop}
    (rest : (next (view machine)).Yields custody machine wanted) :
    Action.Yields custody machine (Action.look view >>= next) wanted :=
  rest

/-- A fault that a run may raise yields nothing, so nothing is to be shown of it. -/
theorem fail
    (steady : custody.Steady good)
    {fault : Fault}
    {wanted : α → Heap → Prop}
    (ofRun : fault.isOfRun = true)
    (holds : custody.invariant machine) :
    Action.Yields custody machine (Action.fail fault : Action α) wanted :=
  ⟨holds, steady.fails ofRun holds⟩

/-- A new cell for a value that was made properly may be held. -/
theorem allocate
    (steady : custody.Steady good)
    {value : Value}
    (holds : custody.invariant machine)
    (made : value.Made good (custody.holds machine.heap) machine.heap) :
    (Action.allocate value).Yields custody machine fun cell heap => custody.holds heap cell :=
  steady.makes holds made

theorem nothing
    (steady : custody.Steady good) :
    Action.nothing.Delivers custody :=
  fun _ holds => steady.allocate holds .none

/-- A name may be bound to any cell that is held. -/
theorem declare
    (steady : custody.Steady good)
    {name : String}
    {cell : Cell}
    (holds : custody.invariant machine)
    (held : custody.holds machine.heap cell) :
    (Action.declare name cell).Yields custody machine fun _ _ => True :=
  ⟨steady.declares holds held, trivial⟩

theorem declareAll
    (steady : custody.Steady good)
    {bindings : List (String × Cell)}
    (holds : custody.invariant machine)
    (held : ∀ binding ∈ bindings, custody.holds machine.heap binding.2) :
    (Action.declareAll bindings).Yields custody machine fun _ _ => True := by
  induction bindings generalizing machine with
  | nil => exact steady.pure holds trivial
  | cons binding rest inductionHypothesis =>
      have first := held binding List.mem_cons_self
      refine steady.bind (steady.declare holds first) fun _ between accepted _ => ?_
      apply inductionHypothesis accepted.invariant
      intro other isMember
      exact steady.keeps accepted (held other (List.mem_cons_of_mem binding isMember))

/-- What may be printed are texts that were rendered, with spaces between them. -/
theorem printLine
    (steady : custody.Steady good)
    {texts : List String}
    (holds : custody.invariant machine)
    (rendered : ∀ text ∈ texts, custody.Rendered text) :
    (Action.printLine (String.intercalate " " texts)).Yields custody machine fun _ _ => True := by
  have printed : (Action.printLine (String.intercalate " " texts) machine).Meets
      custody.toContract machine :=
    steady.prints holds rendered
  unfold Action.Yields
  cases ended : Action.printLine (String.intercalate " " texts) machine with
  | done value after =>
      rw [ended] at printed
      exact ⟨printed, trivial⟩
  | left exit after =>
      rw [ended] at printed
      exact printed
  | unfinished => trivial

/-- A return signal carries a cell that may be held, as a value does. -/
theorem catchReturn
    (steady : custody.Steady good)
    {action : Action Cell}
    (inner : action.Yields custody machine fun cell heap => custody.holds heap cell) :
    (Action.catchReturn action).Yields custody machine fun cell heap =>
      custody.holds heap cell := by
  unfold Action.Yields at inner ⊢
  unfold Action.catchReturn
  cases ended : action machine with
  | done cell after =>
      rw [ended] at inner
      exact inner
  | left exit after =>
      rw [ended] at inner
      cases exit with
      | returning cell =>
          exact ⟨⟨inner.invariant, steady.takes inner.relates⟩, steady.carries inner⟩
      | failing fault => exact inner
  | unfinished => trivial

/-- What is yielded inside a new frame is still there when the frame is dropped. -/
theorem inFrame
    (steady : custody.Steady good)
    {action : Action α}
    {wanted : α → Heap → Prop}
    (holds : custody.invariant machine)
    (inner : action.Yields custody (machine.withFrames FrameStack.push) wanted) :
    (Action.inFrame action).Yields custody machine wanted := by
  unfold Action.Yields at inner ⊢
  unfold Action.inFrame
  cases ended : action (machine.withFrames FrameStack.push) with
  | done value after =>
      rw [ended] at inner
      obtain ⟨accepted, isWanted⟩ := inner
      exact ⟨steady.pops holds accepted, isWanted⟩
  | left exit after =>
      rw [ended] at inner
      exact steady.pops holds inner
  | unfinished => trivial

end Custody.Steady

end CellScript
