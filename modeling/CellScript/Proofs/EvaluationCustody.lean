import CellScript.Proofs.Custody

/-!
# Evaluation keeps custody

Every form is put together from primitive steps, evaluations of its operands and
calls, which take the return signals of the bodies they evaluate.  So a form comes to
a cell that may be held when the evaluator handed to it does so on the operands and,
return signals taken, on the bodies of functions.  By induction on the fuel,
evaluation does so on every good node.
-/

namespace CellScript.Evaluation

/-- The faults that a list of parameters can end in are faults of a run. -/
theorem isOfRun_of_parameterNames
    {nodes : List Node}
    {fault : Fault}
    (failed : parameterNames nodes = .error fault) :
    fault.isOfRun = true := by
  induction nodes with
  | nil => cases failed
  | cons node rest inductionHypothesis =>
      unfold parameterNames at failed
      split at failed
      · cases failed
        rfl
      · cases read : parameterNames rest with
        | ok names =>
            rw [read] at failed
            cases failed
        | error inner =>
            rw [read] at failed
            cases failed
            exact inductionHypothesis read

/-- The faults that the parameters of a function form can end in are faults of a run. -/
theorem isOfRun_of_parametersOf
    {node? : Option Node}
    {fault : Fault}
    (failed : parametersOf node? = .error fault) :
    fault.isOfRun = true := by
  unfold parametersOf at failed
  split at failed
  · cases failed
  · exact isOfRun_of_parameterNames failed
  · cases failed
    rfl

/-- A word stands for a keyword only when it spells it. -/
theorem word_of_keyword
    {word : String}
    {keyword : Keyword}
    (meaning : HeadWord.ofWord word = .keyword keyword) :
    Keyword.ofWord? word = some keyword := by
  unfold HeadWord.ofWord at meaning
  split at meaning
  · cases meaning
    assumption
  · split at meaning
    · cases meaning
    · split at meaning <;> cases meaning

/-- The slot of a list that an index names is one of its slots. -/
theorem exists_list_of_slot?
    {heap : Heap}
    {owner index slot : Cell}
    (found : heap.slot? owner index = some slot) :
    ∃ slots, heap.read owner = .list slots ∧ slot ∈ slots := by
  unfold Heap.slot? at found
  split at found
  · next slots position isList _ => exact ⟨slots, isList, List.mem_of_getElem? found⟩
  · cases found

end CellScript.Evaluation

namespace CellScript.Custody.Steady

open Evaluation

variable
  {custody : Custody} {good : Node → Prop} {evaluate : Evaluator} {machine : Machine}
  {operands : List Node}

/-! ## Operands -/

/-- A node that may be lacking delivers when it does so where it is not lacking. -/
theorem optional
    (steady : custody.Steady good)
    {node? : Option Node}
    (present : ∀ node ∈ node?, (evaluate node).Delivers custody) :
    (Evaluation.optional evaluate node?).Delivers custody := by
  cases node? with
  | none => exact steady.nothing
  | some node => exact present node rfl

theorem operand
    (steady : custody.Steady good)
    (members : ∀ node ∈ operands, (evaluate node).Delivers custody)
    (position : Nat) :
    (Evaluation.operand evaluate operands position).Delivers custody :=
  steady.optional fun node atPosition =>
    members node (List.mem_of_getElem? atPosition)

/-- Both operands of an operator may be held when the second has come to its end. -/
theorem operandPair
    (steady : custody.Steady good)
    (members : ∀ node ∈ operands, (evaluate node).Delivers custody)
    (holds : custody.invariant machine) :
    (Evaluation.operandPair evaluate operands).Yields custody machine fun pair heap =>
      custody.holds heap pair.1 ∧ custody.holds heap pair.2 := by
  refine steady.bind (steady.operand members 0 machine holds) ?_
  intro left between accepted heldLeft
  refine steady.bind (steady.operand members 1 between accepted.invariant) ?_
  intro right after acceptedRight heldRight
  exact steady.pure acceptedRight.invariant ⟨steady.keeps acceptedRight heldLeft, heldRight⟩

theorem all
    (steady : custody.Steady good)
    (members : ∀ node ∈ operands, (evaluate node).Delivers custody)
    (holds : custody.invariant machine) :
    (Evaluation.all evaluate operands).Yields custody machine fun cells heap =>
      ∀ cell ∈ cells, custody.holds heap cell := by
  induction operands generalizing machine with
  | nil => exact steady.pure holds nofun
  | cons node rest inductionHypothesis =>
      have others := fun other isMember => members other (List.mem_cons_of_mem node isMember)
      refine steady.bind (members node List.mem_cons_self machine holds) ?_
      intro cell between accepted held
      refine steady.bind (inductionHypothesis others accepted.invariant) ?_
      intro cells after acceptedRest heldRest
      refine steady.pure acceptedRest.invariant ?_
      intro other isMember
      rcases List.mem_cons.mp isMember with rfl | inRest
      · exact steady.keeps acceptedRest held
      · exact heldRest other inRest

/-- Operands that deliver cells have texts that were rendered from what is held. -/
theorem allRendered
    (steady : custody.Steady good)
    (members : ∀ node ∈ operands, (evaluate node).Delivers custody)
    (holds : custody.invariant machine) :
    (Evaluation.allRendered evaluate operands).Yields custody machine fun texts _ =>
      ∀ text ∈ texts, custody.Rendered text := by
  induction operands generalizing machine with
  | nil => exact steady.pure holds nofun
  | cons node rest inductionHypothesis =>
      have others := fun other isMember => members other (List.mem_cons_of_mem node isMember)
      refine steady.bind (members node List.mem_cons_self machine holds) ?_
      intro cell between accepted held
      refine look (steady.bind (inductionHypothesis others accepted.invariant) ?_)
      intro texts after acceptedRest rendered
      refine steady.pure acceptedRest.invariant ?_
      intro text isMember
      rcases List.mem_cons.mp isMember with rfl | inRest
      · exact ⟨between, cell, accepted.invariant, held, rfl⟩
      · exact rendered text inRest

theorem allInOrder
    (steady : custody.Steady good)
    (members : ∀ node ∈ operands, (evaluate node).Delivers custody)
    (holds : custody.invariant machine) :
    (Evaluation.allInOrder evaluate operands).Yields custody machine fun _ _ => True := by
  induction operands generalizing machine with
  | nil => exact steady.pure holds trivial
  | cons node rest inductionHypothesis =>
      have others := fun other isMember => members other (List.mem_cons_of_mem node isMember)
      refine steady.bind (members node List.mem_cons_self machine holds) ?_
      intro _ between accepted _
      exact inductionHypothesis others accepted.invariant

/-- The cell of the last member may be held, or the given one if there are no members. -/
theorem lastOf
    (steady : custody.Steady good)
    (members : ∀ node ∈ operands, (evaluate node).Delivers custody)
    (holds : custody.invariant machine)
    {last : Cell}
    (held : custody.holds machine.heap last) :
    (Evaluation.lastOf evaluate last operands).Yields custody machine fun cell heap =>
      custody.holds heap cell := by
  induction operands generalizing machine last with
  | nil => exact steady.pure holds held
  | cons node rest inductionHypothesis =>
      have others := fun other isMember => members other (List.mem_cons_of_mem node isMember)
      refine steady.bind (members node List.mem_cons_self machine holds) ?_
      intro cell between accepted heldCell
      exact inductionHypothesis others accepted.invariant heldCell

/-- A sequence delivers the cell of its last member once its frame is dropped. -/
theorem sequence
    (steady : custody.Steady good)
    (members : ∀ node ∈ operands, (evaluate node).Delivers custody) :
    (Evaluation.sequence evaluate operands).Delivers custody := by
  intro machine holds
  refine steady.inFrame holds (steady.bind (steady.allInOrder members (steady.pushes holds)) ?_)
  intro _ after accepted _
  exact steady.nothing after accepted.invariant

/-! ## Calls -/

/-- Parameters are paired with cells that may be held. -/
theorem actuals
    (steady : custody.Steady good)
    (parameters : List String)
    (members : ∀ node ∈ operands, (evaluate node).Delivers custody)
    (holds : custody.invariant machine) :
    (Evaluation.actuals evaluate parameters operands).Yields custody machine fun bindings heap =>
      ∀ binding ∈ bindings, custody.holds heap binding.2 := by
  induction parameters generalizing operands machine with
  | nil => exact steady.pure holds nofun
  | cons parameter rest inductionHypothesis =>
      have first :
          (Evaluation.optional evaluate operands.head?).Delivers custody :=
        steady.optional fun node atHead =>
          members node (List.mem_of_mem_head? atHead)
      have others := fun node isMember => members node (List.mem_of_mem_tail isMember)
      refine steady.bind (first machine holds) ?_
      intro cell between accepted held
      refine steady.bind (inductionHypothesis others accepted.invariant) ?_
      intro bindings after acceptedRest heldRest
      refine steady.pure acceptedRest.invariant ?_
      intro binding isMember
      rcases List.mem_cons.mp isMember with rfl | inRest
      · exact steady.keeps acceptedRest held
      · exact heldRest binding inRest

/-- A call delivers what the body delivers, once the frame of its parameters is dropped. -/
theorem call
    (steady : custody.Steady good)
    (parameters : List String)
    {body : Node}
    (members : ∀ node ∈ operands, (evaluate node).Delivers custody)
    (inner : (Action.catchReturn (evaluate body)).Delivers custody) :
    (Evaluation.call evaluate parameters body operands).Delivers custody := by
  intro machine holds
  refine steady.bind (steady.actuals parameters members holds) ?_
  intro bindings atCall accepted held
  refine steady.inFrame accepted.invariant ?_
  refine steady.bind (steady.declareAll (steady.pushes accepted.invariant) held) ?_
  intro _ inside declared _
  exact inner inside declared.invariant

/-! ## Declarations and assignments -/

/-- A target that is no name is a fault that a run may raise. -/
theorem targetName
    (steady : custody.Steady good)
    (node : Node)
    (holds : custody.invariant machine) :
    (Evaluation.targetName node).Yields custody machine fun _ _ => True := by
  unfold Evaluation.targetName
  split
  · exact steady.pure holds trivial
  · exact steady.fail rfl holds

theorem lookupDeclared
    (steady : custody.Steady good)
    (name : String) :
    (Evaluation.lookupDeclared name).Delivers custody := by
  intro machine holds
  refine look ?_
  split
  · next cell found => exact steady.pure holds (steady.names holds found)
  · exact steady.fail rfl holds

/-- The cell of a slot that is to be assigned may be held. -/
theorem resolveTarget
    (steady : custody.Steady good)
    {node : Node}
    (parts : ∀ ownerNode indexNode,
      indexParts? node = some (ownerNode, indexNode) →
      (evaluate ownerNode).Delivers custody ∧ (evaluate indexNode).Delivers custody)
    (holds : custody.invariant machine) :
    (Evaluation.resolveTarget evaluate node).Yields custody machine fun target heap =>
      ∀ cell, target = .slot cell → custody.holds heap cell := by
  unfold Evaluation.resolveTarget
  split
  · next ownerNode indexNode isIndex =>
      obtain ⟨ownerDelivers, indexDelivers⟩ := parts ownerNode indexNode isIndex
      refine steady.bind (steady.catchReturn (ownerDelivers machine holds)) ?_
      intro owner between accepted heldOwner
      refine steady.bind (steady.catchReturn (indexDelivers between accepted.invariant)) ?_
      intro index after acceptedIndex _
      refine look ?_
      split
      · next target resolved =>
          refine steady.pure acceptedIndex.invariant ?_
          rintro cell rfl
          unfold indexTarget? at resolved
          split at resolved
          · next slot found =>
              cases resolved
              obtain ⟨slots, isList, isSlot⟩ := exists_list_of_slot? found
              exact steady.slots acceptedIndex.invariant
                (steady.keeps acceptedIndex heldOwner) isList isSlot
          · obtain ⟨name, _, atPosition⟩ := Option.bind_eq_some_iff.mp resolved
            obtain ⟨position, _, isPosition⟩ := Option.bind_eq_some_iff.mp atPosition
            cases isPosition
      · exact steady.fail rfl acceptedIndex.invariant
  · refine steady.bind (steady.targetName node holds) ?_
    intro name after accepted _
    exact steady.pure accepted.invariant nofun

/-- An assignment writes to a cell that is held, or splices into a text in one. -/
theorem assignTo
    (steady : custody.Steady good)
    (assigning : good (.form "set" operands))
    (members : ∀ node ∈ operands, (evaluate node).Delivers custody)
    {target : Target}
    (holds : custody.invariant machine)
    (held : ∀ cell, target = .slot cell → custody.holds machine.heap cell) :
    (Evaluation.assignTo evaluate operands target).Yields custody machine fun _ _ => True := by
  have assigned {cell value : Cell} {after : Machine}
      (holds : custody.invariant after)
      (heldCell : custody.holds after.heap cell)
      (heldValue : custody.holds after.heap value) :
      (Action.assign cell value).Yields custody after fun _ _ => True :=
    ⟨steady.assigns assigning holds heldCell heldValue, trivial⟩
  cases target with
  | name name =>
      refine steady.bind (steady.lookupDeclared name machine holds) ?_
      intro cell between accepted heldCell
      refine steady.bind (steady.operand members 1 between accepted.invariant) ?_
      intro value after acceptedValue heldValue
      exact assigned acceptedValue.invariant (steady.keeps acceptedValue heldCell) heldValue
  | slot cell =>
      refine steady.bind (steady.operand members 1 machine holds) ?_
      intro value after acceptedValue heldValue
      exact assigned acceptedValue.invariant (steady.keeps acceptedValue (held cell rfl)) heldValue
  | position variableName index =>
      refine steady.bind (steady.lookupDeclared variableName machine holds) ?_
      intro owner between accepted heldOwner
      refine steady.bind (steady.operand members 1 between accepted.invariant) ?_
      intro value after acceptedValue heldValue
      refine look ?_
      exact ⟨steady.splices assigning acceptedValue.invariant
        (steady.keeps acceptedValue heldOwner) heldValue, trivial⟩

/-- The two operands of an index form that is to be assigned are operands of a form. -/
theorem goodIndexParts
    (steady : custody.Steady good)
    {node ownerNode indexNode : Node}
    (goodNode : good node)
    (isIndex : indexParts? node = some (ownerNode, indexNode)) :
    good ownerNode ∧ good indexNode := by
  unfold indexParts? at isIndex
  split at isIndex
  · next word owner index =>
      split at isIndex
      · next sameWord =>
          subst sameWord
          obtain ⟨rfl, rfl⟩ : owner = ownerNode ∧ index = indexNode := by
            simpa using isIndex
          have operands := steady.goodOperands (by decide) goodNode
          exact ⟨operands owner (by simp), operands index (by simp)⟩
      · cases isIndex
  · cases isIndex

/-- An assignment delivers when all good nodes do. -/
theorem assignment
    (steady : custody.Steady good)
    (assigning : good (.form "set" operands))
    (nodes : ∀ node, good node → (evaluate node).Delivers custody) :
    (Evaluation.assignment evaluate operands).Delivers custody := by
  intro machine holds
  have goodOperands := steady.goodOperands (by decide) assigning
  have members : ∀ node ∈ operands, (evaluate node).Delivers custody :=
    fun node isMember => nodes node (goodOperands node isMember)
  unfold Evaluation.assignment
  split
  · exact steady.fail rfl holds
  · next node atHead =>
      have goodNode := goodOperands node (List.mem_of_mem_head? atHead)
      have parts : ∀ ownerNode indexNode,
          indexParts? node = some (ownerNode, indexNode) →
          (evaluate ownerNode).Delivers custody ∧ (evaluate indexNode).Delivers custody := by
        intro ownerNode indexNode isIndex
        obtain ⟨goodOwner, goodIndex⟩ := steady.goodIndexParts goodNode isIndex
        exact ⟨nodes ownerNode goodOwner, nodes indexNode goodIndex⟩
      refine steady.bind (steady.resolveTarget parts holds) ?_
      intro target between accepted held
      refine steady.bind (steady.assignTo assigning members accepted.invariant held) ?_
      intro _ after acceptedAssignment _
      exact steady.nothing after acceptedAssignment.invariant

theorem declaration
    (steady : custody.Steady good)
    (members : ∀ node ∈ operands, (evaluate node).Delivers custody) :
    (Evaluation.declaration evaluate operands).Delivers custody := by
  intro machine holds
  unfold Evaluation.declaration
  split
  · exact steady.fail rfl holds
  · refine steady.bind (steady.targetName _ holds) ?_
    intro name between accepted _
    refine steady.bind (steady.operand members 1 between accepted.invariant) ?_
    intro cell after acceptedValue held
    refine steady.bind (steady.declare acceptedValue.invariant held) ?_
    intro _ last declared _
    exact steady.nothing last declared.invariant

/-! ## Leaves and the other forms -/

/-- A leaf comes to a cell of a literal that stands in the tree, or to one that a name means. -/
theorem leafValue
    (steady : custody.Steady good)
    {leaf : Leaf}
    (stands : leaf.Stands good) :
    (Evaluation.leafValue leaf).Delivers custody := by
  intro machine holds
  cases leaf with
  | text content => exact steady.allocate holds (.text stands)
  | number value => exact steady.allocate holds (.integer stands)
  | word name =>
      rw [Evaluation.leafValue]
      split
      · exact steady.nothing machine holds
      · refine look ?_
        split
        · exact steady.nothing machine holds
        · next cell found =>
            refine look ?_
            split
            · exact steady.nothing machine holds
            · exact steady.pure holds (steady.names holds found)

/-- A function form delivers under every steady custody under which it is good. -/
theorem functionValue
    (steady : custody.Steady good)
    (making : good (.form "fn" operands)) :
    (Evaluation.functionValue operands).Delivers custody := by
  intro machine holds
  unfold Evaluation.functionValue
  split
  · next failed => exact steady.fail (isOfRun_of_parametersOf failed) holds
  · next parameters _ => exact steady.allocate holds (.function parameters making)

theorem choice
    (steady : custody.Steady good)
    (members : ∀ node ∈ operands, (evaluate node).Delivers custody) :
    (Evaluation.choice evaluate operands).Delivers custody := by
  intro machine holds
  refine steady.bind (steady.operand members 0 machine holds) ?_
  intro condition between accepted _
  refine look ?_
  split
  · exact steady.operand members 1 between accepted.invariant
  · exact steady.operand members 2 between accepted.invariant

/-- Rounds keep the invariant, however many of them are made. -/
theorem rounds
    (steady : custody.Steady good)
    (limit : Option Nat)
    {condition body : Action Cell}
    (conditionDelivers : condition.Delivers custody)
    (bodyDelivers : body.Delivers custody)
    (fuel made : Nat)
    (holds : custody.invariant machine) :
    (Evaluation.rounds limit condition body fuel made).Yields custody machine fun _ _ => True := by
  induction fuel generalizing made machine with
  | zero => trivial
  | succ fuel inductionHypothesis =>
      refine steady.bind (conditionDelivers machine holds) ?_
      intro cell between accepted _
      refine look ?_
      split
      · split
        · exact steady.fail rfl accepted.invariant
        · refine steady.bind (bodyDelivers between accepted.invariant) ?_
          intro _ after acceptedBody _
          exact inductionHypothesis (made + 1) acceptedBody.invariant
      · exact steady.pure accepted.invariant trivial

theorem loop
    (steady : custody.Steady good)
    (limits : Limits)
    (fuel : Nat)
    (members : ∀ node ∈ operands, (evaluate node).Delivers custody) :
    (Evaluation.loop limits fuel evaluate operands).Delivers custody := by
  intro machine holds
  refine steady.bind
    (steady.rounds limits.maxIterations
      (steady.operand members 0) (steady.operand members 1) fuel 0 holds) ?_
  intro _ after accepted _
  exact steady.nothing after accepted.invariant

/-- An item of a list that is held may be held; a character is a new text. -/
theorem elementAt
    (steady : custody.Steady good)
    (members : ∀ node ∈ operands, (evaluate node).Delivers custody) :
    (Evaluation.elementAt evaluate operands).Delivers custody := by
  intro machine holds
  refine steady.bind (steady.operandPair members holds) ?_
  intro pair after accepted held
  refine look ?_
  split
  · next slot found =>
      obtain ⟨slots, isList, isSlot⟩ := exists_list_of_slot? found
      exact steady.pure accepted.invariant
        (steady.slots accepted.invariant held.1 isList isSlot)
  · refine look ?_
    split
    · next character isCharacter =>
        exact steady.allocate accepted.invariant (.character held.1 isCharacter)
    · exact steady.nothing after accepted.invariant

/-- A print form prints rendered texts and delivers a cell without a value. -/
theorem printing
    (steady : custody.Steady good)
    (members : ∀ node ∈ operands, (evaluate node).Delivers custody) :
    (Evaluation.printing evaluate operands).Delivers custody := by
  intro machine holds
  refine steady.bind (steady.allRendered members holds) ?_
  intro texts between accepted rendered
  refine steady.bind (steady.printLine accepted.invariant rendered) ?_
  intro _ after printed _
  exact steady.nothing after printed.invariant

theorem comparisonForm
    (steady : custody.Steady good)
    (members : ∀ node ∈ operands, (evaluate node).Delivers custody)
    (operator : Comparison) :
    (Evaluation.comparisonForm evaluate operands operator).Delivers custody := by
  intro machine holds
  refine steady.bind (steady.operandPair members holds) ?_
  intro pair after accepted _
  exact look (steady.allocate accepted.invariant (.boolean _))

theorem arithmeticForm
    (steady : custody.Steady good)
    (members : ∀ node ∈ operands, (evaluate node).Delivers custody)
    (operator : Arithmetic) :
    (Evaluation.arithmeticForm evaluate operands operator).Delivers custody := by
  intro machine holds
  refine steady.bind (steady.operandPair members holds) ?_
  intro pair after accepted held
  exact look (steady.allocate accepted.invariant (.result operator held.1 held.2))

/-- A form headed by a name delivers when the operands and the stored bodies do. -/
theorem nameForm
    (steady : custody.Steady good)
    (members : ∀ node ∈ operands, (evaluate node).Delivers custody)
    (bodies : custody.DeliverBodies evaluate)
    (name : String) :
    (Evaluation.nameForm evaluate operands name).Delivers custody := by
  intro machine holds
  refine look ?_
  split
  · exact steady.fail rfl holds
  · next cell found =>
      refine look ?_
      split
      · next parameters body isFunction =>
          exact steady.call parameters members (bodies holds isFunction) machine holds
      · exact steady.pure holds (steady.names holds found)

/-! ## Nodes -/

/-- A form headed by a keyword delivers when all good nodes do. -/
theorem keywordForm
    (steady : custody.Steady good)
    (limits : Limits)
    (fuel : Nat)
    {word : String}
    {keyword : Keyword}
    (spelled : Keyword.ofWord? word = some keyword)
    (goodForm : good (.form word operands))
    (nodes : ∀ node, good node → (evaluate node).Delivers custody) :
    (Evaluation.keywordForm limits fuel evaluate operands keyword).Delivers custody := by
  by_cases making : word = "fn"
  · subst making
    cases spelled
    exact steady.functionValue goodForm
  · have members : ∀ node ∈ operands, (evaluate node).Delivers custody :=
      fun node isMember => nodes node (steady.goodOperands making goodForm node isMember)
    unfold Keyword.ofWord? at spelled
    split at spelled <;> cases spelled
    · exact steady.declaration members
    · exact steady.assignment goodForm nodes
    · exact absurd rfl making
    · exact steady.choice members
    · intro machine holds
      refine steady.bind (steady.operand members 0 machine holds) ?_
      intro cell after accepted held
      exact ⟨accepted.invariant, steady.returns goodForm accepted.invariant held⟩
    · exact steady.loop limits fuel members
    · intro machine holds
      refine steady.bind (steady.all members holds) ?_
      intro cells after accepted held
      exact steady.allocate accepted.invariant (.list held)
    · exact steady.nothing
    · exact steady.elementAt members
    · exact steady.printing members

/-- A form delivers when all good nodes and the stored bodies do. -/
theorem form
    (steady : custody.Steady good)
    (limits : Limits)
    (fuel : Nat)
    {head : Node}
    (goodForm : good (.block (head :: operands)))
    (nodes : ∀ node, good node → (evaluate node).Delivers custody)
    (bodies : custody.DeliverBodies evaluate) :
    (Evaluation.form limits fuel evaluate operands head).Delivers custody := by
  unfold Evaluation.form
  split
  · exact fun _ holds => steady.fail rfl holds
  · next word =>
      have members (differs : word ≠ "fn") :
          ∀ node ∈ operands, (evaluate node).Delivers custody :=
        fun node isMember => nodes node (steady.goodOperands differs goodForm node isMember)
      have notFn {meaning : HeadWord}
          (isMeaning : HeadWord.ofWord word = meaning)
          (noKeyword : ∀ keyword, meaning ≠ .keyword keyword) : word ≠ "fn" := by
        rintro rfl
        exact noKeyword .function isMeaning.symm
      split
      · next keyword isKeyword =>
          exact steady.keywordForm limits fuel (word_of_keyword isKeyword) goodForm nodes
      · next operator isComparison =>
          exact steady.comparisonForm (members (notFn isComparison nofun)) operator
      · next operator isArithmetic =>
          exact steady.arithmeticForm (members (notFn isArithmetic nofun)) operator
      · next name isName =>
          exact steady.nameForm (members (notFn isName nofun)) bodies name
  · exact steady.leafValue (.inr ⟨operands, goodForm⟩)

/-- Evaluating a good node delivers when good nodes below it and stored bodies do. -/
theorem step
    (steady : custody.Steady good)
    (limits : Limits)
    (fuel : Nat)
    (nodes : ∀ node, good node → (evaluate node).Delivers custody)
    (bodies : custody.DeliverBodies evaluate)
    {node : Node}
    (goodNode : good node) :
    (Evaluation.step limits fuel evaluate node).Delivers custody := by
  unfold Evaluation.step
  split
  · exact steady.leafValue (.inl goodNode)
  · exact steady.sequence nofun
  · split
    · next isSequence =>
        exact steady.sequence fun member isMember =>
          nodes member (steady.goodMembers isSequence goodNode member isMember)
    · exact steady.form limits fuel goodNode nodes bodies

/-- Evaluating a good node delivers if, at every fuel, stored bodies do when good nodes do. -/
theorem evaluation
    (steady : custody.Steady good)
    (limits : Limits)
    (bodies : ∀ fuel,
      (∀ node, good node → (CellScript.evaluate limits fuel node).Delivers custody) →
      custody.DeliverBodies (CellScript.evaluate limits fuel))
    (fuel : Nat)
    {node : Node}
    (goodNode : good node) :
    (CellScript.evaluate limits fuel node).Delivers custody := by
  induction fuel generalizing node with
  | zero => exact fun _ _ => trivial
  | succ fuel inductionHypothesis =>
      have nodes : ∀ inner, good inner → (CellScript.evaluate limits fuel inner).Delivers custody :=
        fun _ => inductionHypothesis
      exact steady.step limits fuel nodes (bodies fuel nodes) goodNode

end CellScript.Custody.Steady

namespace CellScript.Custody.Lawful

variable {custody : Custody} {good : Node → Prop} {evaluate : Evaluation.Evaluator}

/-- Stored bodies are good nodes, so they deliver when good nodes do. -/
theorem deliverBodies
    (lawful : custody.Lawful good)
    (nodes : ∀ node, good node → (evaluate node).Delivers custody) :
    custody.DeliverBodies evaluate := by
  intro machine function parameters body holds isFunction entered holdsEntered
  have goodBody := lawful.goodBody holds isFunction
  exact lawful.catchReturn (nodes body goodBody entered holdsEntered)

/-- Evaluating a good node keeps lawful custody, whatever the limits and the fuel. -/
theorem evaluation
    (lawful : custody.Lawful good)
    (limits : Limits)
    (fuel : Nat)
    {node : Node}
    (goodNode : good node) :
    (CellScript.evaluate limits fuel node).Delivers custody :=
  lawful.toSteady.evaluation limits (fun _ nodes => lawful.deliverBodies nodes) fuel goodNode

end CellScript.Custody.Lawful
