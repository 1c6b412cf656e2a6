import CellScript.Proofs.CutShort
import CellScript.Proofs.Fuel
import CellScript.Proofs.StoredBodies

namespace CellScript

/-!
# Programs that come to an end

An evaluation goes on in a smaller part of its node or in the body of a function.
Where there are no functions, only loops can evaluate one node more than once, and
under a cap every loop makes a bounded number of rounds.  So an amount of fuel that
is known from the tree and the cap suffices.
-/

/-! ## Parts -/

namespace Node

/-- A node is evaluated as a part of another one. -/
inductive IsPart : Node → Node → Prop where
  | member
      {members : List Node}
      {member : Node}
      (isSequence : isSequence members = true)
      (isMember : member ∈ members) :
      IsPart member (.block members)
  | operand
      {word : String}
      {operands : List Node}
      {operand : Node}
      (differs : word ≠ "fn")
      (isOperand : operand ∈ operands) :
      IsPart operand (.form word operands)
  | trans
      {node between below : Node}
      (lower : IsPart below between)
      (upper : IsPart between node) :
      IsPart below node

/-- Owner and index are parts of an assignment to an index form. -/
theorem isPart_of_target
    {ownerNode indexNode part : Node}
    {rest : List Node}
    (isPart : part ∈ [ownerNode, indexNode]) :
    part.IsPart (.form "set" (.form "index" [ownerNode, indexNode] :: rest)) := by
  have lower : part.IsPart (.form "index" [ownerNode, indexNode]) :=
    .operand (by decide) isPart
  exact lower.trans (.operand (by decide) List.mem_cons_self)

theorem sizeOf_pos
    (node : Node) :
    0 < sizeOf node := by
  cases node with
  | leaf value =>
      rw [leaf.sizeOf_spec]
      omega
  | block members =>
      rw [block.sizeOf_spec]
      omega

theorem sizeOf_lt_of_mem
    {members : List Node}
    {member : Node}
    (isMember : member ∈ members) :
    sizeOf member < sizeOf (Node.block members) := by
  have within := List.sizeOf_lt_of_mem isMember
  rw [block.sizeOf_spec]
  omega

theorem IsPart.sizeOf_lt
    {node part : Node}
    (isPart : part.IsPart node) :
    sizeOf part < sizeOf node := by
  induction isPart with
  | member _ isMember => exact sizeOf_lt_of_mem isMember
  | operand _ isOperand => exact sizeOf_lt_of_mem (List.mem_cons_of_mem _ isOperand)
  | trans _ _ below above => exact Nat.lt_trans below above

/-- The parts of a good node are good, unless they belong to a function form. -/
theorem IsPart.good
    {contract : Contract}
    {good : Node → Prop}
    (lawful : contract.Lawful good)
    {node part : Node}
    (isPart : part.IsPart node)
    (goodNode : good node) :
    good part := by
  induction isPart with
  | member isSequence isMember => exact lawful.goodMembers isSequence goodNode _ isMember
  | operand differs isOperand => exact lawful.goodOperands differs goodNode _ isOperand
  | trans _ _ below above => exact below (above goodNode)

end Node

namespace Evaluation

variable {limits : Limits} {fuel : Nat} {node inner : Node} {machine between : Machine}

/-- Only a keyword makes a form a function form. -/
theorem ne_fn_of_meaning
    {word : String}
    {meaning : HeadWord}
    (isMeaning : HeadWord.ofWord word = meaning)
    (noKeyword : ∀ keyword, meaning ≠ .keyword keyword) :
    word ≠ "fn" := by
  rintro rfl
  exact noKeyword .function isMeaning.symm

theorem Awaits.isPart
    (awaits : Awaits limits fuel node machine inner between) :
    inner.IsPart node := by
  cases awaits with
  | declared | assigned | assignedAt | chooses | chosen | otherwise | returned | loops
  | repeated | item | indexed | printed => exact .operand (by decide) (by simp)
  | compared meaning | computed meaning | actual meaning =>
      exact .operand (ne_fn_of_meaning meaning nofun) (by simp)

/-- What an evaluation enters is a part of its node, or the body of a function. -/
theorem Enters.isPart_or_body
    (enters : Enters limits fuel node machine inner between) :
    inner.IsPart node ∨
      ∃ function parameters, machine.heap.read function = .function parameters inner := by
  cases enters with
  | operand awaits => exact .inl awaits.isPart
  | member isSequence => exact .inl (.member isSequence (by simp))
  | owner | index => exact .inl (Node.isPart_of_target (by simp))
  | body _ _ callable => exact .inr ⟨_, _, callable⟩

end Evaluation

/-! ## What is kept on the way -/

section

variable {contract : Contract} {good : Node → Prop}

/-- What meets a contract keeps its invariant when it comes to its end. -/
theorem Contract.invariant_of_done
    {α : Type}
    {action : Action α}
    {machine after : Machine}
    {value : α}
    (meets : action.Meets contract)
    (holds : contract.invariant machine)
    (ended : action machine = .done value after) :
    contract.invariant after := by
  have kept := meets machine holds
  rw [Action.MeetsAt, ended] at kept
  exact kept.invariant

namespace Contract.Lawful

variable {limits : Limits} {fuel : Nat} {node inner : Node} {machine between : Machine}

/-- Good nodes that have come to their ends in turn have kept the invariant. -/
theorem invariant_of_passes
    (lawful : contract.Lawful good)
    {nodes : List Node}
    (goodNodes : ∀ node ∈ nodes, good node)
    (passes : Evaluation.Passes (evaluate limits fuel) nodes machine between)
    (holds : contract.invariant machine) :
    contract.invariant between := by
  induction passes with
  | nil => exact holds
  | cons ended _ inductionHypothesis =>
      have first := goodNodes _ List.mem_cons_self
      have kept := invariant_of_done (lawful.evaluation limits fuel first) holds ended
      have goodRest := fun node isNode => goodNodes node (List.mem_cons_of_mem _ isNode)
      exact inductionHypothesis goodRest kept

/-- The rounds that a loop has made have kept the invariant. -/
theorem invariant_of_roundsMade
    {limit : Option Nat}
    {condition body : Action Cell}
    {made : Nat}
    (conditionMeets : condition.Meets contract)
    (bodyMeets : body.Meets contract)
    (roundsMade : Evaluation.RoundsMade limit condition body made machine between)
    (holds : contract.invariant machine) :
    contract.invariant between := by
  induction roundsMade with
  | none => exact holds
  | another _ tested _ _ ended inductionHypothesis =>
      exact invariant_of_done bodyMeets
        (invariant_of_done conditionMeets (inductionHypothesis holds) tested) ended

/-- The owner and the index of a target that is to be assigned may be evaluated. -/
theorem good_of_target
    (lawful : contract.Lawful good)
    {ownerNode indexNode : Node}
    {rest : List Node}
    (goodNode : good (.form "set" (.form "index" [ownerNode, indexNode] :: rest))) :
    good ownerNode ∧ good indexNode :=
  ⟨(Node.isPart_of_target List.mem_cons_self).good lawful goodNode,
    (Node.isPart_of_target (by simp)).good lawful goodNode⟩

/-- A good part of a target has kept the invariant, also if its return signal was caught. -/
theorem invariant_of_catchReturn
    (lawful : contract.Lawful good)
    {part : Node}
    {cell : Cell}
    (goodPart : good part)
    (ended : Action.catchReturn (evaluate limits fuel part) machine = .done cell between)
    (holds : contract.invariant machine) :
    contract.invariant between :=
  invariant_of_done (lawful.catchReturn (lawful.evaluation limits fuel goodPart)) holds ended

/-- The invariant holds on every machine on which a form waits for an operand. -/
theorem invariant_of_awaits
    (lawful : contract.Lawful good)
    (awaits : Evaluation.Awaits limits fuel node machine inner between)
    (goodNode : good node)
    (holds : contract.invariant machine) :
    contract.invariant between := by
  have meets {word : String} {operands : List Node}
      (differs : word ≠ "fn")
      (goodForm : good (.form word operands)) :
      ∀ operand ∈ operands, (evaluate limits fuel operand).Meets contract :=
    fun operand isOperand =>
      lawful.evaluation limits fuel (lawful.goodOperands differs goodForm operand isOperand)
  have earlier {word : String} {earlier later : List Node}
      (differs : word ≠ "fn")
      (goodForm : good (.form word (earlier ++ inner :: later)))
      (passes : Evaluation.Passes (evaluate limits fuel) earlier machine between) :
      contract.invariant between :=
    lawful.invariant_of_passes
      (fun node isNode =>
        lawful.goodOperands differs goodForm node (List.mem_append_left _ isNode))
      passes holds
  cases awaits with
  | declared | assigned | chooses | returned => exact holds
  | assignedAt ownerEnds indexEnds =>
      obtain ⟨goodOwner, goodIndex⟩ := lawful.good_of_target goodNode
      have atIndex := lawful.invariant_of_catchReturn goodOwner ownerEnds holds
      exact lawful.invariant_of_catchReturn goodIndex indexEnds atIndex
  | chosen ended | otherwise ended =>
      exact invariant_of_done (meets (by decide) goodNode _ (by simp)) holds ended
  | loops rounds =>
      have operands := meets (by decide) goodNode
      exact invariant_of_roundsMade (lawful.operand operands 0) (lawful.operand operands 1)
        rounds holds
  | repeated rounds _ ended =>
      have operands := meets (by decide) goodNode
      have atRound := invariant_of_roundsMade (lawful.operand operands 0)
        (lawful.operand operands 1) rounds holds
      exact invariant_of_done (operands _ (by simp)) atRound ended
  | item passes | indexed passes | printed passes => exact earlier (by decide) goodNode passes
  | compared meaning passes | computed meaning passes | actual meaning _ _ passes =>
      exact earlier (Evaluation.ne_fn_of_meaning meaning nofun) goodNode passes

/-- The invariant holds on every machine on which an evaluation enters another one. -/
theorem invariant_of_enters
    (lawful : contract.Lawful good)
    (enters : Evaluation.Enters limits fuel node machine inner between)
    (goodNode : good node)
    (holds : contract.invariant machine) :
    contract.invariant between := by
  cases enters with
  | operand awaits => exact lawful.invariant_of_awaits awaits goodNode holds
  | member isSequence passes =>
      have goodEarlier := fun node isNode =>
        lawful.goodMembers isSequence goodNode node (List.mem_append_left _ isNode)
      exact lawful.invariant_of_passes goodEarlier passes (lawful.pushes holds)
  | owner => exact holds
  | index ownerEnds =>
      obtain ⟨goodOwner, _⟩ := lawful.good_of_target goodNode
      exact lawful.invariant_of_catchReturn goodOwner ownerEnds holds
  | body meaning _ _ known declared =>
      have goodOperands :=
        lawful.goodOperands (Evaluation.ne_fn_of_meaning meaning nofun) goodNode
      have atCall := invariant_of_done
        (lawful.actuals _ fun node isNode =>
          lawful.evaluation limits fuel (goodOperands node isNode))
        holds known
      exact invariant_of_done (lawful.declareAll _) (lawful.pushes atCall) declared

end Contract.Lawful

end

/-! ## Trees without functions -/

/-- Without function forms no function is ever made. -/
theorem storedBodies.lawful_of_lacks :
    (storedBodies fun _ => False).Lawful (Node.Lacks "fn") :=
  storedBodies.lawful
    (fun lacks => Node.not_lacks_form _ _ lacks)
    False.elim
    (fun _ lacks => lacks.members)
    (fun _ lacks => lacks.operands)

/-! ## Enough fuel -/

/--
The size of the tree and the cap together are fuel enough: every node that is
entered is smaller, and no loop makes more rounds than its cap allows.
-/
theorem Evaluation.not_isCut_fuel
    {limits : Limits}
    {fuel limit : Nat}
    {node : Node}
    {machine : Machine}
    (capped : limits.maxIterations = some limit)
    (lacks : node.Lacks "fn")
    (noFunction : machine.heap.BodiesAll fun _ => False)
    (enough : sizeOf node + limit ≤ fuel) :
    ¬(evaluate limits fuel node machine).IsCut .fuel := by
  -- What is entered has one unit of fuel less, and it is smaller by one at least.
  induction fuel generalizing node machine with
  | zero =>
      have positive := node.sizeOf_pos
      omega
  | succ fuel inductionHypothesis =>
      intro isCut
      rcases isCut_origin isCut with
        ⟨inner, between, enters, inInner⟩ | ⟨operands, rfl, loopCut⟩
      · have stillNone := storedBodies.lawful_of_lacks.invariant_of_enters enters lacks noFunction
        rcases enters.isPart_or_body with isPart | ⟨function, parameters, callable⟩
        · have smaller := isPart.sizeOf_lt
          exact inductionHypothesis (isPart.good storedBodies.lawful_of_lacks lacks) stillNone
            (by omega) inInner
        · exact noFunction _ _ _ callable
      · cases loopCut with
        | fuel roundsMade =>
            have rounds : fuel ≤ limit := roundsMade.le limit capped
            have positive := (Node.leaf (.word "while")).sizeOf_pos
            have smaller :
                sizeOf (Node.leaf (.word "while")) < sizeOf (Node.form "while" operands) :=
              Node.sizeOf_lt_of_mem List.mem_cons_self
            omega

namespace Program

/-- A program without functions under a cap comes to its end with a known amount of fuel. -/
theorem ne_unfinished_of_lacks
    {limits : Limits}
    {fuel limit : Nat}
    {members : List Node}
    {machine : Machine}
    (capped : limits.maxIterations = some limit)
    (lacks : ∀ member ∈ members, member.Lacks "fn")
    (noFunction : machine.heap.BodiesAll fun _ => False)
    (enough : sizeOf members + limit ≤ fuel) :
    execute limits fuel members machine ≠ .unfinished := by
  intro unfinished
  have isCut : (execute limits fuel members machine).IsCut .fuel := by
    rw [unfinished]
    exact .fuel
  obtain ⟨earlier, member, later, between, rfl, _, passes, inMember⟩ :=
    cutsAmong_of_isCut isCut
  have atStart : (opened machine).heap.BodiesAll fun _ => False :=
    noFunction.allocate nofun
  have stillNone := storedBodies.lawful_of_lacks.invariant_of_passes
    (fun node isNode => lacks node (List.mem_append_left _ isNode)) passes atStart
  have smaller : sizeOf member < sizeOf (earlier ++ member :: later) :=
    List.sizeOf_lt_of_mem (by simp)
  exact Evaluation.not_isCut_fuel capped (lacks member (by simp)) stillNone (by omega) inMember

/--
Under a cap every program without functions comes to an end on a new machine, with a
value or with a fault, however its loops lie inside each other and whatever is
assigned to the slots of its lists.
-/
theorem ends_without_functions
    (limit : Nat)
    (room : Option Nat)
    (members : List Node)
    (noFunctions : ∀ operands, Node.form "fn" operands ∉ Node.preorderAll members) :
    ∃ ending,
      EndsWith { maxIterations := some limit } members (Machine.start room) ending ∧
        ((∃ value final, ending = .done value final) ∨
          ∃ fault final, ending = .left (.failing fault) final) := by
  have finished :
      execute { maxIterations := some limit } (sizeOf members + limit) members
        (Machine.start room) ≠ .unfinished :=
    ne_unfinished_of_lacks rfl (Node.lacks_of_preorderAll noFunctions) Heap.bodiesAll_empty
      (Nat.le_refl _)
  refine ⟨_, ⟨finished, _, rfl⟩, ?_⟩
  cases ended : execute { maxIterations := some limit } (sizeOf members + limit) members
      (Machine.start room) with
  | done value final => exact .inl ⟨value, final, rfl⟩
  | left exit final =>
      obtain ⟨fault, rfl⟩ := fault_of_execute ended
      exact .inr ⟨fault, final, rfl⟩
  | unfinished => exact absurd ended finished

/-- A list that is made to contain itself is printed in a loop, until the cap stops it. -/
theorem printing_a_list_within_itself_ends :
    let named := Node.leaf (.word "l")
    let slot := Node.form "index" [named, .leaf (.number 0)]
    let members :=
      [Node.form "let" [named, .form "list" [named]],
        Node.form "set" [slot, named],
        Node.form "while" [.leaf (.number 1), .form "print" [named]]]
    (∀ operands, Node.form "fn" operands ∉ Node.preorderAll members) ∧
      (∃ ending,
        EndsWith { maxIterations := some 1 } members (Machine.start none) ending ∧
          ((∃ value final, ending = .done value final) ∨
            ∃ fault final, ending = .left (.failing fault) final)) ∧
      ∃ final,
        EndsWith { maxIterations := some 1 } members (Machine.start none)
          (.left (.failing (.tooManyIterations 1)) final) ∧
        final.heap.read ⟨1⟩ = .list [⟨1⟩] := by
  intro named slot members
  have noFunctions : ∀ operands, Node.form "fn" operands ∉ Node.preorderAll members := by
    intro operands
    simp [members, named, slot, Node.preorderAll, Node.preorder, Node.form]
  exact ⟨noFunctions, ends_without_functions 1 none members noFunctions,
    _, .of_left 9 rfl, rfl⟩

end Program

end CellScript
