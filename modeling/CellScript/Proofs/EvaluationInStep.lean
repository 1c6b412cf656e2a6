import CellScript.Proofs.InStep

/-!
# Evaluation keeps runs in step

Every form is put together from primitive steps and evaluations of its operands.
So two evaluators that keep in step on all nodes do so on every form made of them,
and by induction on the fuel so do two evaluations.  The limits of the runs count
in loops only.
-/

namespace CellScript.Pairing.Lawful

open Evaluation

variable {pairing : Pairing} {first second : Evaluator}

/-! ## Operands -/

/-- An operand that is not there is the absent value in both runs. -/
theorem optional
    (nodes : ∀ node, (first node).InStep pairing (second node))
    (node? : Option Node) :
    (Evaluation.optional first node?).InStep pairing (Evaluation.optional second node?) := by
  cases node? with
  | none => exact nothing
  | some node => exact nodes node

theorem operand
    (nodes : ∀ node, (first node).InStep pairing (second node))
    (operands : List Node)
    (position : Nat) :
    (Evaluation.operand first operands position).InStep pairing
      (Evaluation.operand second operands position) :=
  optional nodes operands[position]?

/-- The left operand comes first in both runs. -/
theorem operandPair
    (lawful : pairing.Lawful)
    (nodes : ∀ node, (first node).InStep pairing (second node))
    (operands : List Node) :
    (Evaluation.operandPair first operands).InStep pairing
      (Evaluation.operandPair second operands) :=
  lawful.bind (operand nodes operands 0) fun left =>
    lawful.bind (operand nodes operands 1) fun right => pure (left, right)

/-- Operands evaluated in turn come to corresponding cells. -/
theorem all
    (lawful : pairing.Lawful)
    (nodes : ∀ node, (first node).InStep pairing (second node))
    (operands : List Node) :
    (Evaluation.all first operands).InStep pairing (Evaluation.all second operands) := by
  induction operands with
  | nil => exact pure []
  | cons node rest inductionHypothesis =>
      exact lawful.bind (nodes node) fun cell =>
        lawful.bind inductionHypothesis fun cells => pure (cell :: cells)

/-- Operands rendered in turn have the same texts, since texts do not tell where cells are. -/
theorem allRendered
    (lawful : pairing.Lawful)
    (nodes : ∀ node, (first node).InStep pairing (second node))
    (operands : List Node) :
    (Evaluation.allRendered first operands).InStep pairing
      (Evaluation.allRendered second operands) := by
  induction operands with
  | nil => exact pure []
  | cons node rest inductionHypothesis =>
      refine lawful.bind (nodes node) fun cell => lawful.bind (look ?_) fun text =>
        lawful.bind inductionHypothesis fun texts => pure (text :: texts)
      intro machine other paired
      rw [paired.heap, Heap.read_above, Value.render_above]
      rfl

/-- The last cell of a list of operands is the corresponding one. -/
theorem allInOrder
    (lawful : pairing.Lawful)
    (nodes : ∀ node, (first node).InStep pairing (second node))
    (operands : List Node) :
    (Evaluation.allInOrder first operands).InStep pairing
      (Evaluation.allInOrder second operands) := by
  induction operands with
  | nil => exact pure ()
  | cons node rest inductionHypothesis =>
      exact lawful.bind (nodes node) fun _ => inductionHypothesis

/-- Members evaluated in turn come to corresponding cells; without any, the given ones stay. -/
theorem lastOf
    (lawful : pairing.Lawful)
    (nodes : ∀ node, (first node).InStep pairing (second node))
    (operands : List Node)
    (last : Cell) :
    (Evaluation.lastOf first last operands).InStep pairing
      (Evaluation.lastOf second (relocate pairing.earlier.size last) operands) := by
  induction operands generalizing last with
  | nil => exact pure last
  | cons node rest inductionHypothesis =>
      exact lawful.bind (nodes node) inductionHypothesis

theorem sequence
    (lawful : pairing.Lawful)
    (nodes : ∀ node, (first node).InStep pairing (second node))
    (members : List Node) :
    (Evaluation.sequence first members).InStep pairing
      (Evaluation.sequence second members) :=
  inFrame (lawful.bind (lawful.allInOrder nodes members) fun _ => nothing)

/-! ## Calls -/

/-- Parameters are paired with corresponding cells, as long as there are operands. -/
theorem actuals
    (lawful : pairing.Lawful)
    (nodes : ∀ node, (first node).InStep pairing (second node))
    (parameters : List String)
    (operands : List Node) :
    (Evaluation.actuals first parameters operands).InStep pairing
      (Evaluation.actuals second parameters operands) := by
  induction parameters generalizing operands with
  | nil => exact pure []
  | cons parameter rest inductionHypothesis =>
      exact lawful.bind (optional nodes operands.head?) fun cell =>
        lawful.bind (inductionHypothesis operands.tail) fun bindings =>
          pure ((parameter, cell) :: bindings)

/-- A call binds the parameters to corresponding cells and runs the same body. -/
theorem call
    (lawful : pairing.Lawful)
    (nodes : ∀ node, (first node).InStep pairing (second node))
    (parameters : List String)
    (body : Node)
    (operands : List Node) :
    (Evaluation.call first parameters body operands).InStep pairing
      (Evaluation.call second parameters body operands) :=
  lawful.bind (lawful.actuals nodes parameters operands) fun bindings =>
    inFrame (lawful.bind (lawful.declareAll bindings) fun _ => catchReturn (nodes body))

/-! ## Declarations and assignments -/

theorem targetName
    (node : Node) :
    (Evaluation.targetName node).InStep pairing (Evaluation.targetName node) := by
  unfold Evaluation.targetName
  split
  · next name _ => exact pure name
  · exact fail _

/-- A name is declared in both runs or in neither. -/
theorem lookupDeclared
    (lawful : pairing.Lawful)
    (name : String) :
    (Evaluation.lookupDeclared name).InStep pairing (Evaluation.lookupDeclared name) := by
  refine lawful.bind (lookup? name) fun cell? => ?_
  cases cell? with
  | none => exact fail _
  | some cell => exact pure cell

/-- Both runs assign to the same name or to corresponding cells. -/
theorem resolveTarget
    (lawful : pairing.Lawful)
    (nodes : ∀ node, (first node).InStep pairing (second node))
    (node : Node) :
    (Evaluation.resolveTarget first node).InStep pairing
      (Evaluation.resolveTarget second node) := by
  unfold Evaluation.resolveTarget
  split
  · next ownerNode indexNode _ =>
      refine lawful.bind (catchReturn (nodes ownerNode)) fun owner =>
        lawful.bind (catchReturn (nodes indexNode)) fun index =>
          lawful.bind (look fun paired => ?_) fun target? => ?_
      · rw [paired.heap, indexTarget?_above]
      · cases target? with
        | none => exact fail _
        | some target => exact pure target
  · exact lawful.bind (targetName node) fun name => pure (Target.name name)

/-- Splicing looks at values only, so corresponding cells get the same text. -/
theorem spliceInto
    (lawful : pairing.Lawful)
    (owner : Cell)
    (position : Nat)
    (source : Cell) :
    (Evaluation.spliceInto owner position source).InStep pairing
      (Evaluation.spliceInto (relocate pairing.earlier.size owner) position
        (relocate pairing.earlier.size source)) := by
  refine lawful.bind (look fun paired => ?_) fun value => write owner value
  rw [paired.heap, Heap.read_above, Heap.read_above, spliced_above]

/-- The value is copied, or spliced in, into corresponding cells. -/
theorem assignTo
    (lawful : pairing.Lawful)
    (nodes : ∀ node, (first node).InStep pairing (second node))
    (operands : List Node)
    (target : Target) :
    (Evaluation.assignTo first operands target).InStep pairing
      (Evaluation.assignTo second operands (relocate pairing.earlier.size target)) := by
  cases target with
  | name name =>
      exact lawful.bind (lawful.lookupDeclared name) fun cell =>
        lawful.bind (operand nodes operands 1) fun value => assign cell value
  | slot cell =>
      exact lawful.bind (operand nodes operands 1) fun value => assign cell value
  | position variableName index =>
      exact lawful.bind (lawful.lookupDeclared variableName) fun owner =>
        lawful.bind (operand nodes operands 1) fun value =>
          lawful.spliceInto owner index value

theorem assignment
    (lawful : pairing.Lawful)
    (nodes : ∀ node, (first node).InStep pairing (second node))
    (operands : List Node) :
    (Evaluation.assignment first operands).InStep pairing
      (Evaluation.assignment second operands) := by
  unfold Evaluation.assignment
  split
  · exact fail _
  · next node _ =>
      exact lawful.bind (lawful.resolveTarget nodes node) fun target =>
        lawful.bind (lawful.assignTo nodes operands target) fun _ => nothing

theorem declaration
    (lawful : pairing.Lawful)
    (nodes : ∀ node, (first node).InStep pairing (second node))
    (operands : List Node) :
    (Evaluation.declaration first operands).InStep pairing
      (Evaluation.declaration second operands) := by
  unfold Evaluation.declaration
  split
  · exact fail _
  · next node _ =>
      exact lawful.bind (targetName node) fun name =>
        lawful.bind (operand nodes operands 1) fun cell =>
          lawful.bind (declare name cell) fun _ => nothing

/-! ## Leaves and the other forms -/

/-- A number or a text is put into a new cell in both runs; a name means corresponding cells. -/
theorem leafValue
    (lawful : pairing.Lawful)
    (leaf : Leaf) :
    (Evaluation.leafValue leaf).InStep pairing (Evaluation.leafValue leaf) := by
  cases leaf with
  | text content => exact allocate (.text content)
  | number value => exact allocate (.integer value)
  | word name =>
      rw [Evaluation.leafValue]
      split
      · exact nothing
      · refine lawful.bind (lookup? name) fun cell? => ?_
        cases cell? with
        | none => exact nothing
        | some cell =>
            refine lawful.bind (contents cell) fun value => ?_
            rw [Value.isFunction_relocate]
            split
            · exact nothing
            · exact pure cell

theorem functionValue
    (operands : List Node) :
    (Evaluation.functionValue operands).InStep pairing
      (Evaluation.functionValue operands) := by
  unfold Evaluation.functionValue
  split
  · exact fail _
  · exact allocate (.function _ _)

/-- Both runs take the same branch, since the truth of a value does not tell where cells are. -/
theorem choice
    (lawful : pairing.Lawful)
    (nodes : ∀ node, (first node).InStep pairing (second node))
    (operands : List Node) :
    (Evaluation.choice first operands).InStep pairing
      (Evaluation.choice second operands) := by
  refine lawful.bind (operand nodes operands 0) fun condition =>
    lawful.bind (contents condition) fun value => ?_
  rw [Value.isTruthy_relocate]
  split
  · exact operand nodes operands 1
  · exact operand nodes operands 2

/-- What the caps of two runs say before a round: let it be made, forbid it, or differ. -/
theorem caps_cases
    (lawful : pairing.Lawful)
    (round : Nat) :
    pairing.first.maxIterations.filter (· < round) =
        pairing.second.maxIterations.filter (· < round) ∨
      ∃ limit,
        pairing.first.maxIterations = some limit ∧
          pairing.second.maxIterations ≠ some limit ∧
          pairing.first.maxIterations.filter (· < round) = some limit := by
  have caps := lawful.caps
  cases firstCap : pairing.first.maxIterations with
  | none =>
      cases secondCap : pairing.second.maxIterations with
      | none => exact .inl rfl
      | some bound =>
          obtain ⟨limit, isLimit, _⟩ := caps bound secondCap
          rw [firstCap] at isLimit
          cases isLimit
  | some limit =>
      by_cases same : pairing.second.maxIterations = some limit
      · exact .inl (by rw [same])
      · by_cases exceeds : limit < round
        · exact .inr ⟨limit, rfl, same, by simp [exceeds]⟩
        · have allows {cap : Nat} (atLeast : limit ≤ cap) :
              (some cap).filter (· < round) = none := by
            simpa using Nat.le_trans (Nat.le_of_not_lt exceeds) atLeast
          left
          rw [allows (Nat.le_refl limit)]
          cases secondCap : pairing.second.maxIterations with
          | none => rfl
          | some bound =>
              obtain ⟨least, isLeast, tighter⟩ := caps bound secondCap
              rw [firstCap] at isLeast
              cases isLeast
              exact (allows tighter).symm

/--
Rounds with corresponding conditions and bodies keep in step until a cap or the fuel
stops the first run.
-/
theorem rounds
    (lawful : pairing.Lawful)
    {condition otherCondition body otherBody : Action Cell}
    (conditions : condition.InStep pairing otherCondition)
    (bodies : body.InStep pairing otherBody)
    {fuel otherFuel : Nat}
    (enough : fuel ≤ otherFuel)
    (tied : pairing.lags ∨ fuel = otherFuel)
    (made : Nat) :
    (Evaluation.rounds pairing.first.maxIterations condition body fuel made).InStep pairing
      (Evaluation.rounds pairing.second.maxIterations otherCondition otherBody
        otherFuel made) := by
  have grows {fault : Fault} (stops : pairing.stops fault) (fuel made : Nat) :
      (Evaluation.rounds pairing.second.maxIterations otherCondition otherBody
        fuel made).Meets outputGrows :=
    outputGrows.lawful.rounds _ (conditions.grows stops) (bodies.grows stops) fuel made
  induction fuel generalizing otherFuel made with
  | zero =>
      refine ⟨fun _ => .unfinished (tied.imp_right ?_), fun stops => grows stops otherFuel made⟩
      rintro rfl
      rfl
  | succ fuel inductionHypothesis =>
      obtain ⟨otherFuel, rfl⟩ : ∃ less, otherFuel = less + 1 :=
        ⟨otherFuel - 1, by omega⟩
      have rest := inductionHypothesis (Nat.le_of_succ_le_succ enough)
        (tied.imp_right Nat.succ.inj) (made + 1)
      refine lawful.bind conditions fun cell => lawful.bind (contents cell) fun value => ?_
      rw [Value.isTruthy_relocate]
      split
      · rcases lawful.caps_cases (made + 1) with
          same | ⟨limit, isFirst, notSecond, bites⟩
        · rw [same]
          split
          · exact fail _
          · exact lawful.bind bodies fun _ => rest
        · rw [bites]
          refine lawful.stop (lawful.cuts isFirst notSecond) fun stops => ?_
          split
          · exact fun _ _ => outputGrows.accepts_of_same_sink _ rfl
          · exact outputGrows.lawful.bind (bodies.grows stops) fun _ => grows stops _ _
      · exact pure ()

/-- The limits of the runs count in loops, which both runs leave with the absent value. -/
theorem loop
    (lawful : pairing.Lawful)
    (nodes : ∀ node, (first node).InStep pairing (second node))
    {fuel otherFuel : Nat}
    (enough : fuel ≤ otherFuel)
    (tied : pairing.lags ∨ fuel = otherFuel)
    (operands : List Node) :
    (Evaluation.loop pairing.first fuel first operands).InStep pairing
      (Evaluation.loop pairing.second otherFuel second operands) :=
  lawful.bind
    (lawful.rounds (operand nodes operands 0) (operand nodes operands 1) enough tied 0)
    fun _ => nothing

/-- An item is the cell in the slot; a character is put into a new cell. -/
theorem elementAt
    (lawful : pairing.Lawful)
    (nodes : ∀ node, (first node).InStep pairing (second node))
    (operands : List Node) :
    (Evaluation.elementAt first operands).InStep pairing
      (Evaluation.elementAt second operands) := by
  refine lawful.bind (lawful.operandPair nodes operands) fun (owner, index) =>
    lawful.bind (look fun paired => ?_) fun slot? => ?_
  · rw [paired.heap]
    exact Heap.slot?_above ..
  · cases slot? with
    | some cell => exact pure cell
    | none =>
        refine lawful.bind (look fun paired => ?_) fun character? => ?_
        · rw [paired.heap]
          exact Heap.character?_above ..
        · cases character? with
          | some character => exact allocate (.text _)
          | none => exact nothing

theorem printing
    (lawful : pairing.Lawful)
    (nodes : ∀ node, (first node).InStep pairing (second node))
    (operands : List Node) :
    (Evaluation.printing first operands).InStep pairing
      (Evaluation.printing second operands) := by
  refine lawful.bind (lawful.allRendered nodes operands) fun texts => ?_
  have same : relocate pairing.earlier.size texts = texts := List.map_id _
  rw [same]
  exact lawful.bind (lawful.printLine _) fun _ => nothing

/-- The outcome of a comparison does not tell where cells are. -/
theorem comparisonForm
    (lawful : pairing.Lawful)
    (nodes : ∀ node, (first node).InStep pairing (second node))
    (operands : List Node)
    (operator : Comparison) :
    (Evaluation.comparisonForm first operands operator).InStep pairing
      (Evaluation.comparisonForm second operands operator) := by
  refine lawful.bind (lawful.operandPair nodes operands) fun (left, right) =>
    lawful.bind (look fun paired => ?_) fun result => allocate (.boolean result)
  rw [paired.heap]
  exact operator.holds_above ..

theorem arithmeticForm
    (lawful : pairing.Lawful)
    (nodes : ∀ node, (first node).InStep pairing (second node))
    (operands : List Node)
    (operator : Arithmetic) :
    (Evaluation.arithmeticForm first operands operator).InStep pairing
      (Evaluation.arithmeticForm second operands operator) := by
  refine lawful.bind (lawful.operandPair nodes operands) fun (left, right) =>
    lawful.bind (look fun paired => ?_) allocate
  rw [paired.heap]
  exact (operator.apply_above ..).trans (operator.relocate_onScalars ..).symm

/-- The callee is a function with the same parameters and body in both runs. -/
theorem nameForm
    (lawful : pairing.Lawful)
    (nodes : ∀ node, (first node).InStep pairing (second node))
    (operands : List Node)
    (name : String) :
    (Evaluation.nameForm first operands name).InStep pairing
      (Evaluation.nameForm second operands name) := by
  refine lawful.bind (lookup? name) fun cell? => ?_
  cases cell? with
  | none => exact fail _
  | some cell =>
      refine lawful.bind (contents cell) fun value => ?_
      cases value with
      | function parameters body => exact lawful.call nodes parameters body operands
      | none | boolean | integer | text | list => exact pure cell

/-! ## Nodes -/

section

variable {fuel otherFuel : Nat}

/-- Every keyword keeps in step; only the one for loops looks at the limits and the fuel. -/
theorem keywordForm
    (lawful : pairing.Lawful)
    (nodes : ∀ node, (first node).InStep pairing (second node))
    (enough : fuel ≤ otherFuel)
    (tied : pairing.lags ∨ fuel = otherFuel)
    (operands : List Node)
    (keyword : Keyword) :
    (Evaluation.keywordForm pairing.first fuel first operands keyword).InStep pairing
      (Evaluation.keywordForm pairing.second otherFuel second operands keyword) := by
  cases keyword with
  | declare => exact lawful.declaration nodes operands
  | assign => exact lawful.assignment nodes operands
  | function => exact functionValue operands
  | choose => exact lawful.choice nodes operands
  | giveBack => exact lawful.bind (operand nodes operands 0) giveBack
  | loop => exact lawful.loop nodes enough tied operands
  | list =>
      exact lawful.bind (lawful.all nodes operands) fun cells => allocate (.list cells)
  | importPath => exact nothing
  | index => exact lawful.elementAt nodes operands
  | print => exact lawful.printing nodes operands

/-- The meaning of a head word does not depend on the run. -/
theorem form
    (lawful : pairing.Lawful)
    (nodes : ∀ node, (first node).InStep pairing (second node))
    (enough : fuel ≤ otherFuel)
    (tied : pairing.lags ∨ fuel = otherFuel)
    (operands : List Node)
    (head : Node) :
    (Evaluation.form pairing.first fuel first operands head).InStep pairing
      (Evaluation.form pairing.second otherFuel second operands head) := by
  unfold Evaluation.form
  split
  · exact fail _
  · split
    · next keyword _ => exact lawful.keywordForm nodes enough tied operands keyword
    · next operator _ => exact lawful.comparisonForm nodes operands operator
    · next operator _ => exact lawful.arithmeticForm nodes operands operator
    · next name _ => exact lawful.nameForm nodes operands name
  · exact lawful.leafValue _

/-- What keeps in step on all nodes does so on the nodes made of them. -/
theorem step
    (lawful : pairing.Lawful)
    (nodes : ∀ node, (first node).InStep pairing (second node))
    (enough : fuel ≤ otherFuel)
    (tied : pairing.lags ∨ fuel = otherFuel)
    (node : Node) :
    (Evaluation.step pairing.first fuel first node).InStep pairing
      (Evaluation.step pairing.second otherFuel second node) := by
  unfold Evaluation.step
  split
  · exact lawful.leafValue _
  · exact lawful.sequence nodes []
  · next head operands =>
      split
      · exact lawful.sequence nodes (head :: operands)
      · exact lawful.form nodes enough tied operands head

/-- Evaluations keep in step when the second one has no less fuel. -/
theorem evaluation
    (lawful : pairing.Lawful)
    (enough : fuel ≤ otherFuel)
    (tied : pairing.lags ∨ fuel = otherFuel)
    (node : Node) :
    (CellScript.evaluate pairing.first fuel node).InStep pairing
      (CellScript.evaluate pairing.second otherFuel node) := by
  induction fuel generalizing otherFuel node with
  | zero =>
      refine ⟨fun _ => .unfinished (tied.imp_right ?_), fun _ =>
        outputGrows.lawful.evaluation _ otherFuel trivial⟩
      rintro rfl
      rfl
  | succ fuel inductionHypothesis =>
      obtain ⟨otherFuel, rfl⟩ : ∃ less, otherFuel = less + 1 :=
        ⟨otherFuel - 1, by omega⟩
      have fewer := Nat.le_of_succ_le_succ enough
      have tiedBelow := tied.imp_right Nat.succ.inj
      exact lawful.step (inductionHypothesis fewer tiedBelow) fewer tiedBelow node

/-- Programs keep in step when the second one has no less fuel. -/
theorem execute
    (lawful : pairing.Lawful)
    (enough : fuel ≤ otherFuel)
    (tied : pairing.lags ∨ fuel = otherFuel)
    (members : List Node) :
    (Program.execute pairing.first fuel members).InStep pairing
      (Program.execute pairing.second otherFuel members) := by
  have bodies :
      (Program.body pairing.first fuel members).InStep pairing
        (Program.body pairing.second otherFuel members) :=
    catchReturn (lawful.bind nothing fun absent =>
      lawful.lastOf (lawful.evaluation enough tied) members absent)
  have disciplined (limits : Limits) (fuel : Nat) :
      (Program.body limits fuel members).Meets frameDiscipline :=
    frameDiscipline.lawful.programBody limits fuel fun _ _ => trivial
  unfold Program.execute
  rw [Action.inScope_eq_inFrame (disciplined _ _), Action.inScope_eq_inFrame (disciplined _ _)]
  exact lawful.bind (inFrame bodies) contents

end

end CellScript.Pairing.Lawful
