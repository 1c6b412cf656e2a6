import CellScript.Proofs.EvaluationCustody

namespace CellScript

/-!
# Visits

Evaluating a node comes down to evaluating other nodes, one after the other, each
on the machine that the ones before it have left.  These visits are listed here for
every kind of node, in the order in which they are made.
-/

/-- What is listed once a computation has come to its end; nothing is if it does not. -/
def Ending.onDone {α β : Type} (ending : Ending α) (next : α → Machine → List β) : List β :=
  match ending with
  | .done value machine => next value machine
  | .left _ _ | .unfinished => []

/-- Something is listed only after a computation has come to its end. -/
theorem Ending.mem_onDone_iff
    {α β : Type}
    {ending : Ending α}
    {next : α → Machine → List β}
    {item : β} :
    item ∈ ending.onDone next ↔
      ∃ value machine, ending = .done value machine ∧ item ∈ next value machine := by
  cases ending with
  | done value machine =>
      constructor
      · exact fun isItem => ⟨value, machine, rfl, isItem⟩
      · rintro ⟨_, _, ⟨⟩, isItem⟩
        exact isItem
  | left | unfinished => simp [onDone]

namespace Evaluation

/-- A node that is evaluated, with the machine on which it is evaluated. -/
abbrev Visit := Node × Machine

/-- The visit to a node that may be lacking. -/
def visitOf (node? : Option Node) (machine : Machine) : List Visit :=
  node?.toList.map fun node => (node, machine)

/-- The visits to nodes that are evaluated one after the other. -/
def visitsInTurn (evaluate : Evaluator) : List Node → Machine → List Visit
  | [], _ => []
  | node :: rest, machine =>
      (node, machine) ::
        (evaluate node machine).onDone fun _ between => visitsInTurn evaluate rest between

/-- Nodes after the first are visited only once the first has come to a value. -/
theorem mem_visitsInTurn_cons_iff
    {evaluate : Evaluator}
    {node : Node}
    {rest : List Node}
    {machine : Machine}
    {visit : Visit} :
    visit ∈ visitsInTurn evaluate (node :: rest) machine ↔
      visit = (node, machine) ∨
        ∃ cell between,
          evaluate node machine = .done cell between ∧
            visit ∈ visitsInTurn evaluate rest between := by
  rw [visitsInTurn, List.mem_cons, Ending.mem_onDone_iff]

theorem visitsInTurn_singleton
    (evaluate : Evaluator)
    (node : Node)
    (machine : Machine) :
    visitsInTurn evaluate [node] machine = [(node, machine)] := by
  rw [visitsInTurn]
  cases evaluate node machine <;> rfl

/-- The visit to the value of a declaration. -/
def visitsOfDeclaration : List Node → Machine → List Visit
  | .leaf (.word _) :: rest, machine => visitOf rest[0]? machine
  | _, _ => []

/-- The visit to the value of an assignment, unless its target is a name without a meaning. -/
def visitsOfValue (rest : List Node) (machine : Machine) : Target → List Visit
  | .slot _ => visitOf rest[0]? machine
  | .name name | .position name _ =>
      if (machine.frames.lookup? name).isSome then visitOf rest[0]? machine else []

/-- The visits to the owner, the index and the value of an assignment. -/
def visitsOfAssignment (evaluate : Evaluator) : List Node → Machine → List Visit
  | [], _ => []
  | node :: rest, machine =>
      match indexParts? node with
      | some (ownerNode, indexNode) =>
          (ownerNode, machine) ::
            (Action.catchReturn (evaluate ownerNode) machine).onDone fun owner between =>
              (indexNode, between) ::
                (Action.catchReturn (evaluate indexNode) between).onDone fun index known =>
                  match indexTarget? known.heap ownerNode owner index with
                  | some target => visitsOfValue rest known target
                  | none => []
      | none =>
          match node.word? with
          | some name => visitsOfValue rest machine (.name name)
          | none => []

/-- The visits to a condition and to the operand that it chooses. -/
def visitsOfChoice
    (evaluate : Evaluator)
    (operands : List Node)
    (machine : Machine) :
    List Visit :=
  visitOf operands[0]? machine ++
    (operand evaluate operands 0 machine).onDone fun condition between =>
      visitOf operands[if (between.heap.read condition).isTruthy then 1 else 2]? between

/-- The visits to the condition and the body of a loop, round by round. -/
def visitsOfRounds
    (evaluate : Evaluator)
    (limit : Option Nat)
    (operands : List Node) :
    (fuel made : Nat) → Machine → List Visit
  | 0, _, _ => []
  | fuel + 1, made, machine =>
      visitOf operands[0]? machine ++
        (operand evaluate operands 0 machine).onDone fun condition tested =>
          if (tested.heap.read condition).isTruthy then
            match limit.filter (· < made + 1) with
            | some _ => []
            | none =>
                visitOf operands[1]? tested ++
                  (operand evaluate operands 1 tested).onDone fun _ after =>
                    visitsOfRounds evaluate limit operands fuel (made + 1) after
          else
            []

/-- The visits to the operands of a call, as far as there are parameters, and to the body. -/
def visitsOfCall
    (evaluate : Evaluator)
    (parameters : List String)
    (body : Node)
    (operands : List Node)
    (machine : Machine) :
    List Visit :=
  visitsInTurn evaluate (operands.take parameters.length) machine ++
    (actuals evaluate parameters operands machine).onDone fun bindings between =>
      (Action.declareAll bindings (between.withFrames FrameStack.push)).onDone fun _ entered =>
        [(body, entered)]

/-- The visits of a form whose head is a keyword. -/
def visitsOfKeyword
    (limits : Limits)
    (fuel : Nat)
    (evaluate : Evaluator)
    (operands : List Node)
    (machine : Machine) :
    Keyword → List Visit
  | .declare => visitsOfDeclaration operands machine
  | .assign => visitsOfAssignment evaluate operands machine
  | .function | .importPath => []
  | .choose => visitsOfChoice evaluate operands machine
  | .giveBack => visitOf operands[0]? machine
  | .loop => visitsOfRounds evaluate limits.maxIterations operands fuel 0 machine
  | .list | .print => visitsInTurn evaluate operands machine
  | .index => visitsInTurn evaluate (operands.take 2) machine

/-- The visits of a form whose head is a name. -/
def visitsOfName
    (evaluate : Evaluator)
    (operands : List Node)
    (machine : Machine)
    (name : String) :
    List Visit :=
  match (machine.frames.lookup? name).map machine.heap.read with
  | some (.function parameters body) => visitsOfCall evaluate parameters body operands machine
  | _ => []

/-- The visits of a form. -/
def visitsOfForm
    (limits : Limits)
    (fuel : Nat)
    (evaluate : Evaluator)
    (operands : List Node)
    (machine : Machine) :
    (head : Node) → List Visit
  | .leaf (.word word) =>
      match HeadWord.ofWord word with
      | .keyword keyword => visitsOfKeyword limits fuel evaluate operands machine keyword
      | .comparison _ | .arithmetic _ => visitsInTurn evaluate (operands.take 2) machine
      | .name name => visitsOfName evaluate operands machine name
  | _ => []

/-- The visits of a node, given an evaluator of the nodes below it. -/
def visits
    (limits : Limits)
    (fuel : Nat)
    (evaluate : Evaluator) :
    Node → Machine → List Visit
  | .leaf _, _ | .block [], _ => []
  | .block (head :: operands), machine =>
      if Node.isSequence (head :: operands) then
        visitsInTurn evaluate (head :: operands) (machine.withFrames FrameStack.push)
      else
        visitsOfForm limits fuel evaluate operands machine head

end Evaluation

/-! ## What holds of all visits -/

/-- All visits are to good nodes, and they are made while the invariant holds. -/
def Custody.Keeps
    (custody : Custody)
    (good : Node → Prop)
    (visits : List Evaluation.Visit) : Prop :=
  ∀ visit ∈ visits, good visit.1 ∧ custody.invariant visit.2

namespace Custody.Keeps

variable {custody : Custody} {good : Node → Prop}

theorem nil :
    custody.Keeps good [] :=
  nofun

theorem cons
    {node : Node}
    {machine : Machine}
    {others : List Evaluation.Visit}
    (goodNode : good node)
    (holds : custody.invariant machine)
    (keepsOthers : custody.Keeps good others) :
    custody.Keeps good ((node, machine) :: others) :=
  List.forall_mem_cons.mpr ⟨⟨goodNode, holds⟩, keepsOthers⟩

theorem append
    {first second : List Evaluation.Visit}
    (keepsFirst : custody.Keeps good first)
    (keepsSecond : custody.Keeps good second) :
    custody.Keeps good (first ++ second) :=
  List.forall_mem_append.mpr ⟨keepsFirst, keepsSecond⟩

/-- What follows a computation is visited on a machine on which the invariant still holds. -/
theorem onDone
    {α : Type}
    {action : Action α}
    {machine : Machine}
    {wanted : α → Heap → Prop}
    {next : α → Machine → List Evaluation.Visit}
    (yields : action.Yields custody machine wanted)
    (keeps : ∀ value after,
      custody.invariant after → wanted value after.heap → custody.Keeps good (next value after)) :
    custody.Keeps good ((action machine).onDone next) := by
  unfold Action.Yields at yields
  cases ended : action machine with
  | done value after =>
      rw [ended] at yields
      exact keeps value after yields.1.invariant yields.2
  | left | unfinished => exact nil

/-- A single visit is kept, and so is none at all. -/
theorem visitOf
    {node? : Option Node}
    {machine : Machine}
    (goodNode : ∀ node ∈ node?, good node)
    (holds : custody.invariant machine) :
    custody.Keeps good (Evaluation.visitOf node? machine) := by
  cases node? with
  | none => exact .nil
  | some node => exact .cons (goodNode node rfl) holds .nil

theorem visitOf_operand
    {operands : List Node}
    {machine : Machine}
    (goodOperands : ∀ operand ∈ operands, good operand)
    (position : Nat)
    (holds : custody.invariant machine) :
    custody.Keeps good (Evaluation.visitOf operands[position]? machine) :=
  .visitOf (fun node atPosition => goodOperands node (List.mem_of_getElem? atPosition)) holds

/-- Each node in turn is visited with the invariant, since the nodes before it keep it. -/
theorem visitsInTurn
    {evaluate : Evaluation.Evaluator}
    {operands : List Node}
    {machine : Machine}
    (nodes : ∀ node, good node → (evaluate node).Delivers custody)
    (goodOperands : ∀ operand ∈ operands, good operand)
    (holds : custody.invariant machine) :
    custody.Keeps good (Evaluation.visitsInTurn evaluate operands machine) := by
  induction operands generalizing machine with
  | nil => exact .nil
  | cons node rest inductionHypothesis =>
      have goodNode := goodOperands node List.mem_cons_self
      refine .cons goodNode holds ?_
      refine .onDone (nodes node goodNode machine holds) fun _ between holdsBetween _ => ?_
      exact inductionHypothesis
        (fun other isOther => goodOperands other (List.mem_cons_of_mem node isOther)) holdsBetween

/-- As for all operands, when no more than some number of them is evaluated. -/
theorem visitsInTurn_take
    {evaluate : Evaluation.Evaluator}
    {operands : List Node}
    {machine : Machine}
    (nodes : ∀ node, good node → (evaluate node).Delivers custody)
    (goodOperands : ∀ operand ∈ operands, good operand)
    (count : Nat)
    (holds : custody.invariant machine) :
    custody.Keeps good (Evaluation.visitsInTurn evaluate (operands.take count) machine) :=
  visitsInTurn nodes (fun node isNode => goodOperands node (List.mem_of_mem_take isNode)) holds

end Custody.Keeps

namespace Custody.Steady

open Evaluation

variable {custody : Custody} {good : Node → Prop} {evaluate : Evaluator} {machine : Machine}
variable {operands : List Node}

section

variable (nodes : ∀ node, good node → (evaluate node).Delivers custody)
include nodes

/-- Owner, index and value are operands, and finding the target changes no cell. -/
theorem keeps_visitsOfAssignment
    (steady : custody.Steady good)
    (goodOperands : ∀ operand ∈ operands, good operand)
    (holds : custody.invariant machine) :
    custody.Keeps good (visitsOfAssignment evaluate operands machine) := by
  cases operands with
  | nil => exact .nil
  | cons node rest =>
      have keepsValue {machine : Machine} (holds : custody.invariant machine) (target : Target) :
          custody.Keeps good (visitsOfValue rest machine target) := by
        have keepsRest : custody.Keeps good (visitOf rest[0]? machine) :=
          .visitOf (fun value isValue =>
            goodOperands value (List.mem_cons_of_mem node (List.mem_of_getElem? isValue))) holds
        cases target with
        | slot cell => exact keepsRest
        | name name | position name index =>
            rw [visitsOfValue]
            split
            · exact keepsRest
            · exact .nil
      rw [visitsOfAssignment]
      split
      · next ownerNode indexNode isIndex =>
          obtain ⟨goodOwner, goodIndex⟩ :=
            steady.goodIndexParts (goodOperands node List.mem_cons_self) isIndex
          refine .cons goodOwner holds ?_
          refine .onDone (steady.catchReturn (nodes ownerNode goodOwner machine holds)) ?_
          intro owner between holdsBetween _
          refine .cons goodIndex holdsBetween ?_
          refine .onDone (steady.catchReturn (nodes indexNode goodIndex between holdsBetween)) ?_
          intro index known holdsKnown _
          split
          · exact keepsValue holdsKnown _
          · exact .nil
      · split
        · exact keepsValue holds _
        · exact .nil

/-- Whichever operand a condition chooses is an operand of the form. -/
theorem keeps_visitsOfChoice
    (steady : custody.Steady good)
    (goodOperands : ∀ operand ∈ operands, good operand)
    (holds : custody.invariant machine) :
    custody.Keeps good (visitsOfChoice evaluate operands machine) := by
  have members : ∀ node ∈ operands, (evaluate node).Delivers custody :=
    fun node isMember => nodes node (goodOperands node isMember)
  refine .append (Keeps.visitOf_operand goodOperands 0 holds) ?_
  refine .onDone (steady.operand members 0 machine holds) fun _ between holdsBetween _ => ?_
  exact Keeps.visitOf_operand goodOperands _ holdsBetween

/-- Every round leaves a machine on which the next one may begin. -/
theorem keeps_visitsOfRounds
    (steady : custody.Steady good)
    (limit : Option Nat)
    (goodOperands : ∀ operand ∈ operands, good operand)
    (fuel made : Nat)
    (holds : custody.invariant machine) :
    custody.Keeps good (visitsOfRounds evaluate limit operands fuel made machine) := by
  have members : ∀ node ∈ operands, (evaluate node).Delivers custody :=
    fun node isMember => nodes node (goodOperands node isMember)
  induction fuel generalizing made machine with
  | zero => exact .nil
  | succ fuel inductionHypothesis =>
      refine .append (Keeps.visitOf_operand goodOperands 0 holds) ?_
      refine .onDone (steady.operand members 0 machine holds) fun _ tested holdsTested _ => ?_
      split
      · split
        · exact .nil
        · refine .append (Keeps.visitOf_operand goodOperands 1 holdsTested) ?_
          refine .onDone (steady.operand members 1 tested holdsTested) ?_
          exact fun _ after holdsAfter _ => inductionHypothesis (made + 1) holdsAfter
      · exact .nil

/-- The body of a call is visited in a frame that has been entered properly. -/
theorem keeps_visitsOfCall
    (steady : custody.Steady good)
    (parameters : List String)
    {body : Node}
    (goodOperands : ∀ operand ∈ operands, good operand)
    (goodBody : good body)
    (holds : custody.invariant machine) :
    custody.Keeps good (visitsOfCall evaluate parameters body operands machine) := by
  have members : ∀ node ∈ operands, (evaluate node).Delivers custody :=
    fun node isMember => nodes node (goodOperands node isMember)
  refine .append (.visitsInTurn_take nodes goodOperands parameters.length holds) ?_
  refine .onDone (steady.actuals parameters members holds) fun _ between holdsBetween held => ?_
  refine .onDone (steady.declareAll (steady.pushes holdsBetween) held) ?_
  intro _ entered holdsEntered _
  exact .cons goodBody holdsEntered .nil

/-- Only the operands of a function form need not be good, as none of them is visited. -/
theorem keeps_visitsOfKeyword
    (steady : custody.Steady good)
    (limits : Limits)
    (fuel : Nat)
    {keyword : Keyword}
    (goodOperands : keyword ≠ .function → ∀ operand ∈ operands, good operand)
    (holds : custody.invariant machine) :
    custody.Keeps good (visitsOfKeyword limits fuel evaluate operands machine keyword) := by
  cases keyword with
  | function | importPath => exact .nil
  | declare =>
      rw [visitsOfKeyword]
      unfold visitsOfDeclaration
      split
      · next rest =>
          refine .visitOf (fun value isValue => ?_) holds
          exact goodOperands nofun value
            (List.mem_cons_of_mem _ (List.mem_of_getElem? isValue))
      · exact .nil
  | assign => exact keeps_visitsOfAssignment nodes steady (goodOperands nofun) holds
  | choose => exact keeps_visitsOfChoice nodes steady (goodOperands nofun) holds
  | giveBack => exact Keeps.visitOf_operand (goodOperands nofun) 0 holds
  | loop => exact keeps_visitsOfRounds nodes steady _ (goodOperands nofun) fuel 0 holds
  | list | print => exact .visitsInTurn nodes (goodOperands nofun) holds
  | index => exact .visitsInTurn_take nodes (goodOperands nofun) 2 holds

end

end Custody.Steady

namespace Custody.Lawful

open Evaluation

variable {custody : Custody} {good : Node → Prop}

/-- The visits of a good form are to its operands, or to a body that is good to call. -/
theorem keeps_visitsOfForm
    (lawful : custody.Lawful good)
    {evaluate : Evaluator}
    (nodes : ∀ node, good node → (evaluate node).Delivers custody)
    (limits : Limits)
    (fuel : Nat)
    {head : Node}
    {operands : List Node}
    {machine : Machine}
    (goodForm : good (.block (head :: operands)))
    (holds : custody.invariant machine) :
    custody.Keeps good (visitsOfForm limits fuel evaluate operands machine head) := by
  have steady := lawful.toSteady
  unfold visitsOfForm
  split
  · next word =>
      have goodOperands (differs : word ≠ "fn") : ∀ operand ∈ operands, good operand :=
        lawful.goodOperands differs goodForm
      have notFn {meaning : HeadWord}
          (isMeaning : HeadWord.ofWord word = meaning)
          (noFunction : meaning ≠ .keyword .function) : word ≠ "fn" := by
        rintro rfl
        exact noFunction isMeaning.symm
      split
      · next keyword isKeyword =>
          refine Steady.keeps_visitsOfKeyword nodes steady limits fuel ?_ holds
          exact fun notFunction =>
            goodOperands (notFn isKeyword fun same => notFunction (HeadWord.keyword.inj same))
      · next isComparison =>
          exact .visitsInTurn_take nodes (goodOperands (notFn isComparison nofun)) 2 holds
      · next isArithmetic =>
          exact .visitsInTurn_take nodes (goodOperands (notFn isArithmetic nofun)) 2 holds
      · next name isName =>
          unfold visitsOfName
          split
          · next parameters body isFunction =>
              obtain ⟨function, bound, callable⟩ := Option.map_eq_some_iff.mp isFunction
              exact Steady.keeps_visitsOfCall nodes steady parameters
                (goodOperands (notFn isName nofun)) (lawful.goodBody holds callable) holds
          · exact .nil
  · exact .nil

/-- Evaluating a good node visits good nodes only, and on machines where the invariant holds. -/
theorem keeps_visits
    (lawful : custody.Lawful good)
    (limits : Limits)
    (fuel : Nat)
    {node : Node}
    {machine : Machine}
    (goodNode : good node)
    (holds : custody.invariant machine) :
    custody.Keeps good (visits limits fuel (evaluate limits fuel) node machine) := by
  have nodes : ∀ node, good node → (evaluate limits fuel node).Delivers custody :=
    fun _ => lawful.evaluation limits fuel
  unfold visits
  split
  · exact .nil
  · exact .nil
  · split
    · next isSequence =>
        exact .visitsInTurn nodes (lawful.goodMembers isSequence goodNode)
          (lawful.pushes holds)
    · exact lawful.keeps_visitsOfForm nodes limits fuel goodNode holds

end Custody.Lawful

end CellScript
