import CellScript.Proofs.CutShort
import CellScript.Proofs.Visits
import CellScript.Program

namespace CellScript

/-!
# What is printed

Evaluation prints a line for every print form that it executes, after what the
operands of the form print, and nothing else.  So the lines can be listed from the
visits that evaluation makes, without looking at the sink; and the sink has taken
exactly these lines, one after the other.
-/

/-- A sink that has taken lines, each given by the texts that stand on it. -/
def Sink.takeLines (sink : Sink) (lines : List (List String)) : Sink :=
  lines.foldl (fun sink texts => sink.take (lineBytes (String.intercalate " " texts))) sink

namespace Evaluation

/-- The line of a print form whose operands have come to their ends; other nodes have none. -/
def ownLine (evaluate : Evaluator) : Node → Machine → List (List String)
  | .block (.leaf (.word word) :: operands), machine =>
      if word = "print" then
        (allRendered evaluate operands machine).onDone fun texts _ => [texts]
      else
        []
  | _, _ => []

/-- The lines of all print forms that evaluating a node executes, in this order. -/
def printed (limits : Limits) : (fuel : Nat) → Node → Machine → List (List String)
  | 0, _, _ => []
  | fuel + 1, node, machine =>
      (visits limits fuel (evaluate limits fuel) node machine).flatMap
          (fun visit => printed limits fuel visit.1 visit.2) ++
        ownLine (evaluate limits fuel) node machine

end Evaluation

/-! ## What computations print -/

/-- However it ends, a computation adds some lines to the sink of a machine. -/
def Action.Prints {α : Type} (machine : Machine) (action : Action α) (lines : List (List String)) :
    Prop :=
  ∀ after, (action machine).machine? = some after → after.sink = machine.sink.takeLines lines

namespace Action.Prints

variable {α β : Type} {machine : Machine} {lines : List (List String)}

/--
Computations in a row print the lines of the first and, if it comes to its end, of the
second.
-/
theorem bind
    {action : Action α}
    {next : α → Action β}
    {later : α → Machine → List (List String)}
    (first : action.Prints machine lines)
    (second : ∀ value between,
      action machine = .done value between → (next value).Prints between (later value between)) :
    (action >>= next).Prints machine (lines ++ (action machine).onDone later) := by
  intro after left
  rw [bind_apply] at left
  cases ended : action machine with
  | done value between =>
      rw [ended] at left
      rw [second value between ended after left, first between (congrArg _ ended)]
      exact (List.foldl_append).symm
  | left exit between =>
      rw [ended] at left
      cases left
      rw [Ending.onDone, List.append_nil]
      exact first after (congrArg _ ended)
  | unfinished =>
      rw [ended] at left
      cases left

/-- Only what a computation does on this very machine counts. -/
theorem congr
    {action other : Action α}
    (same : action machine = other machine)
    (prints : other.Prints machine lines) :
    action.Prints machine lines := by
  intro after left
  rw [same] at left
  exact prints after left

/-- What follows prints nothing. -/
theorem bind_silent
    {action : Action α}
    {next : α → Action β}
    (first : action.Prints machine lines)
    (second : ∀ value between, (next value).Prints between []) :
    (action >>= next).Prints machine lines := by
  have both := first.bind fun value between _ => second value between
  have silent : ((action machine).onDone fun _ _ => ([] : List (List String))) = [] := by
    cases action machine <;> rfl
  rwa [silent, List.append_nil] at both

/-- A return signal that is caught has printed what it has printed. -/
theorem catchReturn
    {action : Action Cell}
    (prints : action.Prints machine lines) :
    (Action.catchReturn action).Prints machine lines := by
  intro after left
  rw [machine?_catchReturn] at left
  exact prints after left

/-- Frames that are added before a computation and dropped after it have no part in its lines. -/
theorem onMachine
    {action : Action α}
    {change : Machine → Machine}
    (prints : action.Prints (machine.withFrames FrameStack.push) lines)
    (keeps : ∀ between, (change between).sink = between.sink) :
    Action.Prints machine
      (fun machine => (action (machine.withFrames FrameStack.push)).onMachine change) lines := by
  intro after left
  rw [Ending.machine?_onMachine] at left
  obtain ⟨between, inner, rfl⟩ := Option.map_eq_some_iff.mp left
  exact (keeps between).trans (prints between inner)

/-- Frames have no part in what is printed. -/
theorem inFrame
    {action : Action α}
    (prints : action.Prints (machine.withFrames FrameStack.push) lines) :
    (Action.inFrame action).Prints machine lines :=
  onMachine prints fun _ => rfl

theorem inScope
    {action : Action α}
    (prints : action.Prints (machine.withFrames FrameStack.push) lines) :
    (Action.inScope action).Prints machine lines :=
  onMachine prints fun _ => rfl

theorem pure (value : α) :
    (Pure.pure value : Action α).Prints machine [] := by
  rintro after ⟨⟩
  rfl

theorem look (view : Machine → α) :
    (Action.look view).Prints machine [] := by
  rintro after ⟨⟩
  rfl

theorem declare
    (name : String)
    (cell : Cell) :
    (Action.declare name cell).Prints machine [] := by
  rintro after ⟨⟩
  rfl

theorem assign
    (target source : Cell) :
    (Action.assign target source).Prints machine [] := by
  rintro after ⟨⟩
  rfl

/-- What leaves at once prints nothing. -/
theorem of_left
    {action : Action α}
    {exit : Exit}
    (left : action machine = .left exit machine) :
    action.Prints machine [] := by
  intro after ended
  rw [left] at ended
  cases ended
  rfl

theorem fail (fault : Fault) :
    (Action.fail fault : Action α).Prints machine [] :=
  of_left rfl

theorem allocate (value : Value) :
    (Action.allocate value).Prints machine [] := by
  rintro after ⟨⟩
  rfl

theorem nothing :
    Action.nothing.Prints machine [] :=
  allocate .none

theorem declareAll
    (bindings : List (String × Cell)) :
    (Action.declareAll bindings).Prints machine [] := by
  induction bindings generalizing machine with
  | nil => exact pure ()
  | cons binding rest inductionHypothesis =>
      have others : (Action.declareAll rest).Prints
          (machine.withFrames fun frames => frames.declare binding.1 binding.2) [] :=
        inductionHypothesis
      exact others

/-- Printing a line adds it to the sink, even where not all of it fits. -/
theorem printLine
    (texts : List String) :
    (Action.printLine (String.intercalate " " texts)).Prints machine [texts] := by
  intro after left
  unfold Action.printLine at left
  dsimp only at left
  split at left
  · cases left
    rfl
  · cases left
    rfl

end Action.Prints

/-! ## What forms print -/

namespace Evaluation

variable {evaluate : Evaluator} {tell : Visit → List (List String)} {machine : Machine}
variable {operands : List Node}

/-- Lines that are listed visit by visit. -/
theorem flatMap_onDone
    {α : Type}
    (ending : Ending α)
    (next : α → Machine → List Visit) :
    (ending.onDone next).flatMap tell =
      ending.onDone fun value after => (next value after).flatMap tell := by
  cases ending <;> rfl

/-- A computation prints what some visits tell. -/
def Tells
    {α : Type}
    (tell : Visit → List (List String))
    (machine : Machine)
    (action : Action α)
    (visits : List Visit) : Prop :=
  action.Prints machine (visits.flatMap tell)

/-- Computations in a row tell of the visits of both, as far as they are made. -/
theorem Tells.bind
    {α β : Type}
    {action : Action α}
    {next : α → Action β}
    {earlier : List Visit}
    {later : α → Machine → List Visit}
    (first : Tells tell machine action earlier)
    (second : ∀ value between,
      action machine = .done value between →
        Tells tell between (next value) (later value between)) :
    Tells tell machine (action >>= next) (earlier ++ (action machine).onDone later) := by
  rw [Tells, List.flatMap_append, flatMap_onDone]
  exact Action.Prints.bind first second

/-- Leaves print nothing. -/
theorem prints_leafValue
    (leaf : Leaf)
    (machine : Machine) :
    (leafValue leaf).Prints machine [] := by
  cases leaf with
  | text | number => exact .allocate _
  | word name =>
      rcases leafValue_word_cases name machine with ⟨cell, -, found⟩ | absent
      · exact .congr found (.pure cell)
      · exact .congr absent .nothing

theorem prints_functionValue
    (operands : List Node)
    (machine : Machine) :
    (functionValue operands).Prints machine [] := by
  unfold functionValue
  split
  · exact .fail _
  · exact .allocate _

theorem prints_spliceInto
    (owner : Cell)
    (position : Nat)
    (source : Cell)
    (machine : Machine) :
    (spliceInto owner position source).Prints machine [] := by
  rintro after ⟨⟩
  rfl

/-- A sequence has no line of its own. -/
theorem ownLine_of_isSequence
    (evaluate : Evaluator)
    {members : List Node}
    (isSequence : Node.isSequence members = true)
    (machine : Machine) :
    ownLine evaluate (.block members) machine = [] := by
  cases members with
  | nil => rfl
  | cons first rest =>
      cases first with
      | leaf value => cases isSequence
      | block inner => rfl

/-- Only one word makes a print form. -/
theorem ofWord_eq_print_iff
    {word : String} :
    HeadWord.ofWord word = .keyword .print ↔ word = "print" := by
  constructor
  · intro meaning
    have spelled := word_of_keyword meaning
    unfold Keyword.ofWord? at spelled
    split at spelled <;> cases spelled
    rfl
  · rintro rfl
    rfl

section

variable (nodes : ∀ node machine, Tells tell machine (evaluate node) [(node, machine)])
include nodes

/-- An operand that may be lacking prints what the visit to it tells, if there is one. -/
theorem tells_optional
    (node? : Option Node)
    (machine : Machine) :
    Tells tell machine (optional evaluate node?) (visitOf node? machine) := by
  cases node? with
  | none => exact .nothing
  | some node => exact nodes node machine

/-- Operands in turn print what the visits to them tell. -/
theorem tells_all
    (operands : List Node)
    (machine : Machine) :
    Tells tell machine (all evaluate operands) (visitsInTurn evaluate operands machine) := by
  induction operands generalizing machine with
  | nil => exact .pure []
  | cons node rest inductionHypothesis =>
      exact (nodes node machine).bind fun cell between _ =>
        (inductionHypothesis between).bind_silent fun cells after => .pure _

/-- Rendering adds nothing to what the operands print. -/
theorem tells_allRendered
    (operands : List Node)
    (machine : Machine) :
    Tells tell machine (allRendered evaluate operands)
      (visitsInTurn evaluate operands machine) := by
  induction operands generalizing machine with
  | nil => exact .pure []
  | cons node rest inductionHypothesis =>
      exact (nodes node machine).bind fun cell between _ =>
        (inductionHypothesis between).bind_silent fun texts after => .pure _

theorem tells_allInOrder
    (members : List Node)
    (machine : Machine) :
    Tells tell machine (allInOrder evaluate members) (visitsInTurn evaluate members machine) := by
  induction members generalizing machine with
  | nil => exact .pure ()
  | cons node rest inductionHypothesis =>
      exact (nodes node machine).bind fun cell between _ => inductionHypothesis between

theorem tells_lastOf
    (members : List Node)
    (last : Cell)
    (machine : Machine) :
    Tells tell machine (lastOf evaluate last members)
      (visitsInTurn evaluate members machine) := by
  induction members generalizing last machine with
  | nil => exact .pure last
  | cons node rest inductionHypothesis =>
      exact (nodes node machine).bind fun cell between _ => inductionHypothesis cell between

/-- An operator prints what its first two operands print. -/
theorem tells_operandPair
    (operands : List Node)
    (machine : Machine) :
    Tells tell machine (operandPair evaluate operands)
      (visitsInTurn evaluate (operands.take 2) machine) := by
  -- An operand that is lacking gets a cell, but nothing is visited for it.
  cases operands with
  | nil => exact .bind_silent .nothing fun _ _ => .bind_silent .nothing fun _ _ => .pure _
  | cons first rest =>
      refine (nodes first machine).bind fun cell between _ => ?_
      cases rest with
      | nil => exact .bind_silent .nothing fun _ _ => .pure _
      | cons second rest =>
          rw [List.take_succ_cons, List.take_zero, visitsInTurn_singleton]
          exact .bind_silent (nodes second between) fun _ _ => .pure _

/-- Only the operands that have parameters are evaluated and print. -/
theorem tells_actuals
    (parameters : List String)
    (operands : List Node)
    (machine : Machine) :
    Tells tell machine (actuals evaluate parameters operands)
      (visitsInTurn evaluate (operands.take parameters.length) machine) := by
  induction parameters generalizing operands machine with
  | nil => exact .pure []
  | cons parameter rest inductionHypothesis =>
      have others (operands : List Node) (cell : Cell) (between : Machine) :
          Tells tell between
            (actuals evaluate rest operands >>= fun bindings =>
              pure ((parameter, cell) :: bindings))
            (visitsInTurn evaluate (operands.take rest.length) between) :=
        (inductionHypothesis operands between).bind_silent fun _ _ => .pure _
      cases operands with
      | nil =>
          refine .bind_silent .nothing fun cell between => ?_
          have none := others [] cell between
          rwa [List.take_nil] at none
      | cons node later =>
          exact (nodes node machine).bind fun cell between _ => others later cell between

/-- A call prints what its operands print and then what the body prints. -/
theorem tells_call
    (parameters : List String)
    (body : Node)
    (operands : List Node)
    (machine : Machine) :
    Tells tell machine (call evaluate parameters body operands)
      (visitsOfCall evaluate parameters body operands machine) := by
  refine (tells_actuals nodes parameters operands machine).bind fun bindings between _ => ?_
  refine .inFrame ?_
  have declared : Tells tell (between.withFrames FrameStack.push) (Action.declareAll bindings) [] :=
    .declareAll bindings
  exact declared.bind fun _ entered _ => .catchReturn (nodes body entered)

/-! ## Declarations and assignments -/

/-- A declaration prints what the value that it binds prints. -/
theorem tells_declaration
    (operands : List Node)
    (machine : Machine) :
    Tells tell machine (declaration evaluate operands) (visitsOfDeclaration operands machine) := by
  cases operands with
  | nil => exact .fail _
  | cons node rest =>
      cases node with
      | block members => exact .fail _
      | leaf leaf =>
          cases leaf with
          | text | number => exact .fail _
          | word name =>
              have value := tells_optional nodes rest[0]? machine
              exact value.bind_silent fun cell between =>
                .bind_silent (.declare name cell) fun _ _ => .nothing

/-- The value of an assignment is not evaluated where the target has no meaning. -/
theorem tells_assignTo
    (first : Node)
    (rest : List Node)
    (target : Target)
    (machine : Machine) :
    Tells tell machine (assignTo evaluate (first :: rest) target)
      (visitsOfValue rest machine target) := by
  have value (write : Cell → Action Unit)
      (silent : ∀ value between, (write value).Prints between []) :
      Tells tell machine (operand evaluate (first :: rest) 1 >>= write)
        (visitOf rest[0]? machine) := by
    rw [operand, List.getElem?_cons_succ]
    exact (tells_optional nodes rest[0]? machine).bind_silent silent
  have ofLookup (name : String) (write : Cell → Cell → Action Unit)
      (silent : ∀ owner value between, (write owner value).Prints between []) :
      Tells tell machine
        (lookupDeclared name >>= fun owner => operand evaluate (first :: rest) 1 >>= write owner)
        (if (machine.frames.lookup? name).isSome then visitOf rest[0]? machine else []) := by
    cases bound : machine.frames.lookup? name with
    | none => exact .of_left (Action.bind_of_left (lookupDeclared_of_unbound bound))
    | some owner =>
        exact .congr (Action.bind_of_done (lookupDeclared_of_bound bound))
          (value (write owner) (silent owner))
  cases target with
  | slot cell => exact value _ fun source _ => .assign cell source
  | name name => exact ofLookup name _ fun owner source _ => .assign owner source
  | position name index =>
      exact ofLookup name _ fun owner source _ => prints_spliceInto owner index source _

/-- An assignment prints what the owner, the index and the value print. -/
theorem tells_assignment
    (operands : List Node)
    (machine : Machine) :
    Tells tell machine (assignment evaluate operands)
      (visitsOfAssignment evaluate operands machine) := by
  cases operands with
  | nil => exact .fail _
  | cons node rest =>
      have assigned (target : Target) (machine : Machine) :
          Tells tell machine
            (assignTo evaluate (node :: rest) target >>= fun _ => Action.nothing)
            (visitsOfValue rest machine target) :=
        (tells_assignTo nodes node rest target machine).bind_silent fun _ _ => .nothing
      rw [visitsOfAssignment]
      split
      · next ownerNode indexNode isIndex =>
          obtain rfl := form_of_indexParts? isIndex
          rw [assignment_indexed]
          refine Tells.bind (.catchReturn (nodes ownerNode machine)) fun owner between _ => ?_
          refine Tells.bind (.catchReturn (nodes indexNode between)) fun index known _ => ?_
          cases resolved : indexTarget? known.heap ownerNode owner index with
          | some target =>
              refine .congr ?_ (assigned target known)
              simp only [assignIndexed, Action.look, Action.bind_apply, resolved]
          | none =>
              let target := Node.form "index" [ownerNode, indexNode]
              refine .congr ?_ (.fail (.invalidAssignmentTarget target.display))
              simp only [assignIndexed, Action.look, Action.bind_apply, resolved, target]
      · next notIndex =>
          cases isName : node.word? with
          | none =>
              refine .congr ?_ (.fail (.invalidAssignmentTarget node.display))
              simp only [assignment, List.head?_cons, resolveTarget, notIndex, targetName, isName]
              rfl
          | some name =>
              obtain rfl := eq_word_of_word? isName
              exact assigned (.name name) machine

/-! ## Choices and loops -/

/-- A choice prints what its condition prints and then what the operand it takes prints. -/
theorem tells_choice
    (operands : List Node)
    (machine : Machine) :
    Tells tell machine (choice evaluate operands) (visitsOfChoice evaluate operands machine) := by
  refine (tells_optional nodes operands[0]? machine).bind fun condition between _ => ?_
  cases truthy : (between.heap.read condition).isTruthy with
  | true =>
      refine .congr ?_ (tells_optional nodes operands[1]? between)
      simp only [Action.contents, Action.look, Action.bind_apply, truthy]
      rfl
  | false =>
      refine .congr ?_ (tells_optional nodes operands[2]? between)
      simp only [Action.contents, Action.look, Action.bind_apply, truthy]
      rfl

/-- A loop prints round by round, as long as its cap allows. -/
theorem tells_rounds
    (limit : Option Nat)
    (operands : List Node)
    (fuel made : Nat)
    (machine : Machine) :
    Tells tell machine
      (rounds limit (operand evaluate operands 0) (operand evaluate operands 1) fuel made)
      (visitsOfRounds evaluate limit operands fuel made machine) := by
  induction fuel generalizing made machine with
  | zero => nofun
  | succ fuel inductionHypothesis =>
      refine (tells_optional nodes operands[0]? machine).bind fun condition tested _ => ?_
      cases truthy : (tested.heap.read condition).isTruthy with
      | false =>
          refine .congr ?_ (.pure ())
          simp only [Action.contents, Action.look, Action.bind_apply, truthy]
          rfl
      | true =>
          cases exceeded : limit.filter (· < made + 1) with
          | some bound =>
              refine .congr ?_ (.fail (.tooManyIterations bound))
              simp only [Action.contents, Action.look, Action.bind_apply, truthy, if_true]
          | none =>
              refine .congr ?_ ((tells_optional nodes operands[1]? tested).bind
                fun value after _ => inductionHypothesis (made + 1) after)
              simp only [Action.contents, Action.look, Action.bind_apply, truthy, if_true]
              rfl

/-! ## Nodes -/

/-- Access by index prints what the owner and the index print. -/
theorem tells_elementAt
    (operands : List Node)
    (machine : Machine) :
    Tells tell machine (elementAt evaluate operands)
      (visitsInTurn evaluate (operands.take 2) machine) := by
  refine (tells_operandPair nodes operands machine).bind_silent fun ⟨owner, index⟩ between => ?_
  cases inList : between.heap.slot? owner index with
  | some slot =>
      refine .congr ?_ (.pure slot)
      simp only [Action.look, Action.bind_apply, inList]
  | none =>
      cases inText : between.heap.character? owner index with
      | some character =>
          refine .congr ?_ (.allocate (.text (String.ofList [character])))
          simp only [Action.look, Action.bind_apply, inList, inText]
      | none =>
          refine .congr ?_ .nothing
          simp only [Action.look, Action.bind_apply, inList, inText]

/-- A form whose head names no function prints nothing. -/
theorem tells_nameForm
    (operands : List Node)
    (name : String)
    (machine : Machine) :
    Tells tell machine (nameForm evaluate operands name)
      (visitsOfName evaluate operands machine name) := by
  cases bound : machine.frames.lookup? name with
  | none =>
      rw [visitsOfName, bound]
      refine .congr ?_ (.fail (.unrecognizedExpression name))
      simp only [nameForm, Action.lookup?, Action.look, Action.bind_apply, bound]
  | some cell =>
      rw [visitsOfName, bound, Option.map_some]
      cases held : machine.heap.read cell with
      | function parameters body =>
          exact .congr (nameForm_of_function bound held)
            (tells_call nodes parameters body operands machine)
      | none | boolean | integer | text | list =>
          refine .congr ?_ (.pure cell)
          simp only [nameForm, Action.lookup?, Action.contents, Action.look, Action.bind_apply,
            bound, held]

/-- Every keyword form but that for printing prints just what its visits tell. -/
theorem tells_keywordForm
    (limits : Limits)
    (fuel : Nat)
    {keyword : Keyword}
    (notPrint : keyword ≠ .print)
    (operands : List Node)
    (machine : Machine) :
    Tells tell machine (keywordForm limits fuel evaluate operands keyword)
      (visitsOfKeyword limits fuel evaluate operands machine keyword) := by
  cases keyword with
  | declare => exact tells_declaration nodes operands machine
  | assign => exact tells_assignment nodes operands machine
  | function => exact prints_functionValue operands machine
  | choose => exact tells_choice nodes operands machine
  | giveBack =>
      exact (tells_optional nodes operands[0]? machine).bind_silent fun cell between =>
        .of_left rfl
  | loop => exact (tells_rounds nodes _ operands fuel 0 machine).bind_silent fun _ _ => .nothing
  | list => exact (tells_all nodes operands machine).bind_silent fun _ _ => .allocate _
  | importPath => exact .nothing
  | index => exact tells_elementAt nodes operands machine
  | print => exact absurd rfl notPrint

/-- A print form adds its own line behind all that its operands print. -/
theorem prints_printing
    (operands : List Node)
    (machine : Machine) :
    (printing evaluate operands).Prints machine
      ((visitsInTurn evaluate operands machine).flatMap tell ++
        (allRendered evaluate operands machine).onDone fun texts _ => [texts]) :=
  Action.Prints.bind (tells_allRendered nodes operands machine) fun texts _ _ =>
    (Action.Prints.printLine texts).bind_silent fun _ _ => .nothing

theorem tells_sequence
    (members : List Node)
    (machine : Machine) :
    Tells tell machine (sequence evaluate members)
      (visitsInTurn evaluate members (machine.withFrames FrameStack.push)) :=
  .inFrame ((tells_allInOrder nodes members _).bind_silent fun _ _ => .nothing)

/-- A form prints what its visits tell and then, if it is a print form, its own line. -/
theorem prints_form
    (limits : Limits)
    (fuel : Nat)
    (head : Node)
    (operands : List Node)
    (machine : Machine) :
    (form limits fuel evaluate operands head).Prints machine
      ((visitsOfForm limits fuel evaluate operands machine head).flatMap tell ++
        ownLine evaluate (.block (head :: operands)) machine) := by
  cases head with
  | block members => exact .fail _
  | leaf leaf =>
      cases leaf with
      | text content => exact prints_leafValue (.text content) machine
      | number value => exact prints_leafValue (.number value) machine
      | word word =>
          -- The line of its own is what sets the print form apart from all others.
          have noLine (notPrint : HeadWord.ofWord word ≠ .keyword .print) :
              ownLine evaluate (.form word operands) machine = [] := by
            have differs : word ≠ "print" := fun same => notPrint (ofWord_eq_print_iff.mpr same)
            rw [Node.form, ownLine, if_neg differs]
          change (form limits fuel evaluate operands (.leaf (.word word))).Prints machine
            (_ ++ ownLine evaluate (.form word operands) machine)
          cases meaning : HeadWord.ofWord word with
          | keyword keyword =>
              by_cases isPrint : keyword = .print
              · subst isPrint
                obtain rfl := ofWord_eq_print_iff.mp meaning
                exact prints_printing nodes operands machine
              · rw [noLine (by simp [meaning, isPrint]), List.append_nil]
                simp only [form, visitsOfForm, meaning]
                exact tells_keywordForm nodes limits fuel isPrint operands machine
          | comparison operator =>
              rw [noLine (by simp [meaning]), List.append_nil]
              simp only [form, visitsOfForm, meaning]
              exact (tells_operandPair nodes operands machine).bind_silent fun _ _ => .allocate _
          | arithmetic operator =>
              rw [noLine (by simp [meaning]), List.append_nil]
              simp only [form, visitsOfForm, meaning]
              exact (tells_operandPair nodes operands machine).bind_silent fun _ _ => .allocate _
          | name name =>
              rw [noLine (by simp [meaning]), List.append_nil]
              simp only [form, visitsOfForm, meaning]
              exact tells_nameForm nodes operands name machine

/-- A node prints what its visits tell and then, if it is a print form, its own line. -/
theorem prints_step
    (limits : Limits)
    (fuel : Nat)
    (node : Node)
    (machine : Machine) :
    (step limits fuel evaluate node).Prints machine
      ((visits limits fuel evaluate node machine).flatMap tell ++
        ownLine evaluate node machine) := by
  unfold step
  split
  · exact prints_leafValue _ machine
  · exact tells_sequence nodes [] machine
  · next head operands =>
      rw [visits]
      split
      · next isSequence =>
          rw [ownLine_of_isSequence _ isSequence, List.append_nil]
          exact tells_sequence nodes (head :: operands) machine
      · exact prints_form nodes limits fuel head operands machine

end

/-- What evaluation prints is listed by its visits and adds up in the sink. -/
theorem prints_evaluate
    (limits : Limits)
    (fuel : Nat)
    (node : Node)
    (machine : Machine) :
    (CellScript.evaluate limits fuel node).Prints machine (printed limits fuel node machine) := by
  induction fuel generalizing node machine with
  | zero => nofun
  | succ fuel inductionHypothesis =>
      refine prints_step (fun inner between => ?_) limits fuel node machine
      rw [Tells, List.flatMap_singleton]
      exact inductionHypothesis inner between

end Evaluation

/-- Every text on a printed line is the printed form of what was held at some time. -/
theorem Custody.Lawful.rendered_of_mem_printed
    {custody : Custody}
    {good : Node → Prop}
    (lawful : custody.Lawful good)
    (limits : Limits)
    (fuel : Nat)
    {node : Node}
    {machine : Machine}
    (goodNode : good node)
    (holds : custody.invariant machine) :
    ∀ texts ∈ Evaluation.printed limits fuel node machine,
      ∀ text ∈ texts, custody.Rendered text := by
  induction fuel generalizing node machine with
  | zero => nofun
  | succ fuel inductionHypothesis =>
      intro texts isPrinted
      rcases List.mem_append.mp isPrinted with told | own
      · obtain ⟨⟨inner, between⟩, isVisit, told⟩ := List.mem_flatMap.mp told
        obtain ⟨goodInner, holdsBetween⟩ :=
          lawful.keeps_visits limits fuel goodNode holds _ isVisit
        exact inductionHypothesis goodInner holdsBetween texts told
      · unfold Evaluation.ownLine at own
        split at own
        · next word operands =>
            split at own
            · next isPrint =>
                subst isPrint
                have members : ∀ operand ∈ operands,
                    (evaluate limits fuel operand).Delivers custody :=
                  fun operand isOperand => lawful.evaluation limits fuel
                    (lawful.goodOperands (by decide) goodNode operand isOperand)
                have yields := lawful.allRendered members holds
                unfold Action.Yields at yields
                cases ended : Evaluation.allRendered (evaluate limits fuel) operands machine with
                | done others after =>
                    rw [ended] at own yields
                    obtain rfl := List.mem_singleton.mp own
                    exact yields.2
                | left | unfinished =>
                    rw [ended] at own
                    cases own
            · cases own
        · cases own

namespace Program

/-- The machine on which the members of a program are evaluated. -/
def entered (machine : Machine) : Machine :=
  { machine.withFrames FrameStack.push with heap := (machine.heap.allocate .none).2 }

/-- The lines of all print forms that a program executes, in this order. -/
def printed
    (limits : Limits)
    (fuel : Nat)
    (members : List Node)
    (machine : Machine) :
    List (List String) :=
  (Evaluation.visitsInTurn (evaluate limits fuel) members (entered machine)).flatMap
    fun visit => Evaluation.printed limits fuel visit.1 visit.2

/-- What a program prints is listed by its visits and adds up in the sink. -/
theorem prints_execute
    (limits : Limits)
    (fuel : Nat)
    (members : List Node)
    (machine : Machine) :
    (execute limits fuel members).Prints machine (printed limits fuel members machine) := by
  have nodes (node : Node) (machine : Machine) :
      Evaluation.Tells (fun visit => Evaluation.printed limits fuel visit.1 visit.2) machine
        (evaluate limits fuel node) [(node, machine)] := by
    rw [Evaluation.Tells, List.flatMap_singleton]
    exact Evaluation.prints_evaluate limits fuel node machine
  have inBody : (body limits fuel members).Prints (machine.withFrames FrameStack.push)
      (printed limits fuel members machine) :=
    .catchReturn (.bind .nothing fun absent between _ =>
      Evaluation.tells_lastOf nodes members absent between)
  exact (Action.Prints.inScope inBody).bind_silent fun _ _ => .look _

/-- Every text that a program prints is the printed form of what was held at some time. -/
theorem rendered_of_mem_printed
    {custody : Custody}
    {good : Node → Prop}
    (lawful : custody.Lawful good)
    (limits : Limits)
    (fuel : Nat)
    {members : List Node}
    {machine : Machine}
    (goodMembers : ∀ member ∈ members, good member)
    (holds : custody.invariant machine) :
    ∀ texts ∈ printed limits fuel members machine, ∀ text ∈ texts, custody.Rendered text := by
  intro texts isPrinted
  obtain ⟨⟨node, between⟩, isVisit, told⟩ := List.mem_flatMap.mp isPrinted
  have holdsEntered : custody.invariant (entered machine) :=
    (lawful.makes (lawful.pushes holds) .none).1.invariant
  have keeps := Custody.Keeps.visitsInTurn (fun _ => lawful.evaluation limits fuel)
    goodMembers holdsEntered
  obtain ⟨goodNode, holdsBetween⟩ := keeps _ isVisit
  exact lawful.rendered_of_mem_printed limits fuel goodNode holdsBetween texts told

end Program

end CellScript
