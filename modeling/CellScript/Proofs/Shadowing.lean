import CellScript.Frames
import Mathlib.Data.List.Infix
import Mathlib.Data.List.Nodup

namespace CellScript

/-!
# Shadowing

Three views of a stack of frames agree: looking a name up from the newest frame
down, flattening all frames into one, and a ledger of the declarations that are
still in force.  The ledger knows of no frames, only of how deep the stack was when
something was declared: a name means what was declared for it last, among the
declarations whose depth has not been given up since.
-/

namespace Frame

/-! ## Names of a frame -/

/-- The names that a frame binds. -/
def names (frame : Frame) : List String :=
  frame.bindings.map Prod.fst

/-- No name is bound twice. -/
def Distinct (frame : Frame) : Prop :=
  frame.names.Nodup

variable {frame upper lower : Frame} {name other : String} {cell : Cell}

theorem distinct_empty : empty.Distinct :=
  List.nodup_nil

/-- Putting a binding adds its name, unless it is there already. -/
private theorem mem_names_put
    {bindings : List (String × Cell)} :
    other ∈ (put name cell bindings).map Prod.fst ↔
      other = name ∨ other ∈ bindings.map Prod.fst := by
  induction bindings with
  | nil => simp [put]
  | cons binding rest inductionHypothesis =>
      obtain ⟨bound, old⟩ := binding
      rw [put]
      split
      · next same =>
          subst same
          simp
      · rw [List.map_cons, List.mem_cons, inductionHypothesis, List.map_cons, List.mem_cons]
        exact or_left_comm

private theorem nodup_names_put
    {bindings : List (String × Cell)}
    (distinct : (bindings.map Prod.fst).Nodup) :
    ((put name cell bindings).map Prod.fst).Nodup := by
  induction bindings with
  | nil => exact List.nodup_singleton name
  | cons binding rest inductionHypothesis =>
      obtain ⟨bound, old⟩ := binding
      obtain ⟨notAgain, distinctRest⟩ := List.nodup_cons.mp distinct
      rw [put]
      split
      · next same =>
          subst same
          exact distinct
      · next differ =>
          refine List.nodup_cons.mpr ⟨fun again => ?_, inductionHypothesis distinctRest⟩
          rcases mem_names_put.mp again with same | inRest
          · exact differ same.symm
          · exact notAgain inRest

theorem mem_names_bind :
    other ∈ (frame.bind name cell).names ↔ other = name ∨ other ∈ frame.names :=
  mem_names_put

/-- Binding a name again overwrites its binding, so no name is bound twice. -/
theorem Distinct.bind
    (distinct : frame.Distinct)
    (name : String)
    (cell : Cell) :
    (frame.bind name cell).Distinct :=
  nodup_names_put distinct

/-- A frame finds the names that it binds, and no others. -/
theorem isSome_lookup?_iff :
    (frame.lookup? name).isSome = true ↔ name ∈ frame.names := by
  rw [← Option.ne_none_iff_isSome, ne_eq, lookup?, List.lookup_eq_none_iff, names, List.mem_map]
  simp only [not_forall, bne_iff_ne, ne_eq, not_not]
  exact ⟨fun ⟨binding, isBinding, same⟩ => ⟨binding, isBinding, same.symm⟩,
    fun ⟨binding, isBinding, same⟩ => ⟨binding, isBinding, same.symm⟩⟩

/-! ## One frame onto another -/

/-- Putting one frame onto another keeps the names of both. -/
theorem mem_names_onto :
    name ∈ (upper.onto lower).names ↔ name ∈ upper.names ∨ name ∈ lower.names := by
  obtain ⟨bindings⟩ := upper
  induction bindings generalizing lower with
  | nil => simp [onto, names]
  | cons binding rest inductionHypothesis =>
      have first : names ⟨binding :: rest⟩ = binding.1 :: names ⟨rest⟩ := rfl
      refine (@inductionHypothesis (lower.bind binding.1 binding.2)).trans ?_
      rw [mem_names_bind, first, List.mem_cons, or_left_comm, or_assoc]

theorem Distinct.onto
    (distinct : lower.Distinct)
    (upper : Frame) :
    (upper.onto lower).Distinct := by
  obtain ⟨bindings⟩ := upper
  induction bindings generalizing lower with
  | nil => exact distinct
  | cons binding rest inductionHypothesis =>
      exact inductionHypothesis (distinct.bind binding.1 binding.2)

/-- What the upper frame binds hides what the lower one binds. -/
theorem lookup?_onto
    (distinct : upper.Distinct) :
    (upper.onto lower).lookup? name = (upper.lookup? name).or (lower.lookup? name) := by
  obtain ⟨bindings⟩ := upper
  induction bindings generalizing lower with
  | nil => rfl
  | cons binding rest inductionHypothesis =>
      obtain ⟨bound, cell⟩ := binding
      obtain ⟨notAgain, distinctRest⟩ := List.nodup_cons.mp distinct
      refine (@inductionHypothesis (lower.bind bound cell) distinctRest).trans ?_
      by_cases same : name = bound
      · subst same
        -- The rest is put down later, but it does not bind the name again.
        have unbound : lookup? ⟨rest⟩ name = none := by
          rw [← Option.not_isSome_iff_eq_none, isSome_lookup?_iff]
          exact notAgain
        have found : lookup? ⟨(name, cell) :: rest⟩ name = some cell := List.lookup_cons_self
        rw [unbound, lookup?_bind_self, found]
        rfl
      · have skipped : lookup? ⟨(bound, cell) :: rest⟩ name = lookup? ⟨rest⟩ name := by
          rw [lookup?, List.lookup_cons, beq_false_of_ne same]
          rfl
        rw [lookup?_bind_of_ne lower cell same, skipped]

end Frame

namespace FrameStack

variable {stack : FrameStack} {name : String}

/-! ## Flattening -/

/-- No frame binds a name twice. -/
def Distinct (stack : FrameStack) : Prop :=
  ∀ frame ∈ stack.frames, frame.Distinct

/-- A name means in the flattened frames what it means in the stack. -/
theorem lookup?_flatten
    (distinct : stack.Distinct)
    (name : String) :
    stack.flatten.lookup? name = stack.lookup? name := by
  rw [flatten, lookup?]
  revert distinct
  rw [Distinct]
  induction stack.frames with
  | nil => exact fun _ => rfl
  | cons frame rest inductionHypothesis =>
      intro distinct
      have others := inductionHypothesis fun other isOther => distinct other (.tail _ isOther)
      rw [List.foldr_cons, Frame.lookup?_onto (distinct frame List.mem_cons_self), others,
        List.findSome?_cons]
      cases frame.lookup? name <;> rfl

/-- Flattening keeps the names of all frames. -/
theorem mem_names_flatten :
    name ∈ stack.flatten.names ↔ ∃ frame ∈ stack.frames, name ∈ frame.names := by
  rw [flatten]
  induction stack.frames with
  | nil => simp [Frame.empty, Frame.names]
  | cons frame rest inductionHypothesis =>
      rw [List.foldr_cons, Frame.mem_names_onto, inductionHypothesis, List.exists_mem_cons_iff]

/-- Flattening binds no name twice. -/
theorem distinct_flatten
    (stack : FrameStack) :
    stack.flatten.Distinct := by
  rw [flatten]
  induction stack.frames with
  | nil => exact Frame.distinct_empty
  | cons frame rest inductionHypothesis => exact inductionHypothesis.onto frame

/-- Some frame binds a name exactly if the name means something. -/
theorem binds_eq_isSome_lookup?
    (stack : FrameStack)
    (name : String) :
    stack.binds name = (stack.lookup? name).isSome := by
  rw [binds, lookup?]
  induction stack.frames with
  | nil => rfl
  | cons frame rest inductionHypothesis =>
      rw [List.any_cons, List.findSome?_cons, inductionHypothesis]
      cases frame.lookup? name <;> rfl

/-! ## Dropping frames -/

/-- A stack is determined by its frames. -/
theorem eq_of_frames
    {other : FrameStack}
    (same : stack.frames = other.frames) :
    stack = other := by
  cases stack
  cases other
  cases same
  rfl

theorem length_frames
    (stack : FrameStack) :
    stack.frames.length = stack.depth := rfl

/-- A pop drops the newest frame, unless it is the global one. -/
theorem frames_pop
    (stack : FrameStack) :
    stack.pop.frames = stack.frames.drop (min 1 (stack.depth - 1)) := by
  obtain ⟨top, below⟩ := stack
  cases below <;> rfl

/-- Dropping frames one by one stops at the global one. -/
theorem frames_repeat_pop
    (count : Nat)
    (stack : FrameStack) :
    (Nat.repeat pop count stack).frames = stack.frames.drop (min count (stack.depth - 1)) := by
  induction count with
  | zero =>
      rw [Nat.zero_min]
      rfl
  | succ count inductionHypothesis =>
      have depth := congrArg List.length inductionHypothesis
      rw [length_frames, List.length_drop, length_frames] at depth
      rw [Nat.repeat, frames_pop, inductionHypothesis, List.drop_drop, depth]
      congr 1
      omega

/-- Truncating keeps the oldest frames, but never fewer than one. -/
theorem frames_truncate
    (stack : FrameStack)
    (depth : Nat) :
    (stack.truncate depth).frames = stack.frames.drop (stack.depth - max depth 1) := by
  rw [truncate, frames_repeat_pop]
  congr 1
  omega

theorem depth_pop
    (stack : FrameStack) :
    stack.pop.depth = max (stack.depth - 1) 1 := by
  have positive := stack.depth_pos
  rw [← length_frames, frames_pop, List.length_drop, length_frames]
  omega

/-- Truncating never makes a stack deeper, and never lowers its depth below one. -/
theorem depth_truncate
    (stack : FrameStack)
    (depth : Nat) :
    (stack.truncate depth).depth = min stack.depth (max depth 1) := by
  rw [← length_frames, frames_truncate, List.length_drop, length_frames]
  omega

/-! ## Operations -/

/-- What can be done to a stack of frames. -/
inductive Operation where
  | push
  | pop
  | truncate (depth : Nat)
  | declare (name : String) (cell : Cell)
  deriving Repr, DecidableEq

/-- Do an operation. -/
def apply (stack : FrameStack) : Operation → FrameStack
  | .push => stack.push
  | .pop => stack.pop
  | .truncate depth => stack.truncate depth
  | .declare name cell => stack.declare name cell

/-- Do operations one after the other. -/
def run (stack : FrameStack) (operations : List Operation) : FrameStack :=
  operations.foldl apply stack

/-- No operation makes a frame bind a name twice. -/
theorem Distinct.apply
    (distinct : stack.Distinct)
    (operation : Operation) :
    (stack.apply operation).Distinct := by
  intro frame isFrame
  cases operation with
  | push =>
      rcases List.mem_cons.mp isFrame with rfl | isOld
      · exact Frame.distinct_empty
      · exact distinct frame isOld
  | pop =>
      rw [FrameStack.apply, frames_pop] at isFrame
      exact distinct frame (List.mem_of_mem_drop isFrame)
  | truncate depth =>
      rw [FrameStack.apply, frames_truncate] at isFrame
      exact distinct frame (List.mem_of_mem_drop isFrame)
  | declare name cell =>
      rcases List.mem_cons.mp isFrame with rfl | isOld
      · exact (distinct stack.top List.mem_cons_self).bind name cell
      · exact distinct frame (.tail _ isOld)

theorem Distinct.run
    (distinct : stack.Distinct)
    (operations : List Operation) :
    (stack.run operations).Distinct := by
  induction operations generalizing stack with
  | nil => exact distinct
  | cons operation rest inductionHypothesis => exact inductionHypothesis (distinct.apply operation)

theorem distinct_global : global.Distinct := by
  intro frame isFrame
  obtain rfl : frame = Frame.empty := List.mem_singleton.mp isFrame
  exact Frame.distinct_empty

/-! ## Declarations in force -/

/-- A declaration, with the number of frames that there were when it was made. -/
structure Declaration where
  depth : Nat
  name : String
  cell : Cell
  deriving Repr, DecidableEq

/-- The depth of a stack and the declarations still in force, the newest first. -/
structure Ledger where
  depth : Nat
  inForce : List Declaration
  deriving Repr, DecidableEq

namespace Ledger

/-- Nothing is declared yet. -/
def start : Ledger :=
  { depth := 1, inForce := [] }

/-- Give up all depths beyond one, and with them the declarations made there. -/
def giveUp (ledger : Ledger) (depth : Nat) : Ledger :=
  { depth, inForce := ledger.inForce.filter (·.depth ≤ depth) }

/-- Enter an operation. -/
def enter (ledger : Ledger) : Operation → Ledger
  | .push => { ledger with depth := ledger.depth + 1 }
  | .pop => ledger.giveUp (max (ledger.depth - 1) 1)
  | .truncate depth => ledger.giveUp (min ledger.depth (max depth 1))
  | .declare name cell =>
      { ledger with inForce := { depth := ledger.depth, name, cell } :: ledger.inForce }

/-- The ledger of operations, done one after the other from a new stack. -/
def ofOperations (operations : List Operation) : Ledger :=
  operations.foldl enter start

/-- The cell declared last for a name, among the declarations in force. -/
def latest? (ledger : Ledger) (name : String) : Option Cell :=
  (ledger.inForce.find? (·.name = name)).map Declaration.cell

end Ledger

/--
The declarations in force belong to the frames, newest first: those made at the depth
of a frame stand together, and the frame finds the latest of them.
-/
inductive Records : List Declaration → List Frame → Prop where
  | nil : Records [] []
  | cons
      {own others : List Declaration}
      {frame : Frame}
      {below : List Frame}
      (madeHere : ∀ declaration ∈ own, declaration.depth = below.length + 1)
      (finds : ∀ name,
        frame.lookup? name = (own.find? (·.name = name)).map Declaration.cell)
      (records : Records others below) :
      Records (own ++ others) (frame :: below)

namespace Records

variable {inForce : List Declaration} {frames : List Frame}

/-- The newest frame that finds a name finds what was declared for it last. -/
theorem findSome?_eq
    (records : Records inForce frames)
    (name : String) :
    (frames.findSome? fun frame => frame.lookup? name) =
      (inForce.find? (·.name = name)).map Declaration.cell := by
  induction records with
  | nil => rfl
  | @cons own others frame below madeHere finds records inductionHypothesis =>
      rw [List.findSome?_cons, finds, List.find?_append, inductionHypothesis]
      cases own.find? (·.name = name) <;> rfl

/-- Nothing was declared in a new frame. -/
theorem push
    (records : Records inForce frames) :
    Records inForce (Frame.empty :: frames) := by
  have madeHere : ∀ declaration ∈ ([] : List Declaration),
      declaration.depth = frames.length + 1 := fun _ isOwn => nomatch isOwn
  exact .cons madeHere (fun _ => rfl) records

/-- A new declaration belongs to the newest frame and comes before all others. -/
theorem declare
    {top : Frame}
    {below : List Frame}
    (records : Records inForce (top :: below))
    (name : String)
    (cell : Cell) :
    Records ({ depth := below.length + 1, name, cell } :: inForce)
      (top.bind name cell :: below) := by
  cases records with
  | @cons own others _ _ madeHere finds records =>
      rw [← List.cons_append]
      refine .cons (List.forall_mem_cons.mpr ⟨rfl, madeHere⟩) ?_ records
      intro sought
      by_cases same : sought = name
      · subst same
        simp
      · simp [Frame.lookup?_bind_of_ne top cell same, finds, Ne.symm same]

/-- Giving up depths leaves the declarations that belong to the frames left. -/
theorem giveUp
    (records : Records inForce frames)
    (depth : Nat) :
    Records (inForce.filter (·.depth ≤ depth)) (frames.drop (frames.length - depth)) := by
  induction records with
  | nil =>
      rw [List.drop_nil]
      exact .nil
  | @cons own others frame below madeHere finds records inductionHypothesis =>
      rw [List.filter_append, List.length_cons]
      by_cases stays : below.length + 1 ≤ depth
      · have allStay : own.filter (·.depth ≤ depth) = own := by
          rw [List.filter_eq_self]
          intro declaration isOwn
          simpa [madeHere declaration isOwn] using stays
        have noneBelow : below.length - depth = 0 := by omega
        rw [noneBelow, List.drop_zero] at inductionHypothesis
        rw [allStay, Nat.sub_eq_zero_of_le stays]
        exact .cons madeHere finds inductionHypothesis
      · have noneStay : own.filter (·.depth ≤ depth) = [] := by
          rw [List.filter_eq_nil_iff]
          intro declaration isOwn
          simpa [madeHere declaration isOwn] using stays
        have oneMore : below.length + 1 - depth = below.length - depth + 1 := by omega
        rw [noneStay, List.nil_append, oneMore, List.drop_succ_cons]
        exact inductionHypothesis

end Records

/-- A ledger is right about a stack. -/
structure Ledger.Describes (ledger : Ledger) (stack : FrameStack) : Prop where
  depth : ledger.depth = stack.depth
  records : Records ledger.inForce stack.frames

namespace Ledger

variable {ledger : Ledger}

theorem describes_start : start.Describes global where
  depth := rfl
  records := .push .nil

/-- Dropping frames is giving up the declarations made there. -/
theorem Describes.giveUp
    (describes : ledger.Describes stack)
    {after : FrameStack}
    {depth : Nat}
    (isDepth : after.depth = depth)
    (frames : after.frames = stack.frames.drop (stack.depth - depth)) :
    (ledger.giveUp depth).Describes after where
  depth := isDepth.symm
  records := by
    rw [frames]
    exact describes.records.giveUp depth

/-- A ledger stays right about a stack when the same operation is entered and done. -/
theorem Describes.enter
    (describes : ledger.Describes stack)
    (operation : Operation) :
    (ledger.enter operation).Describes (stack.apply operation) := by
  have positive := stack.depth_pos
  cases operation with
  | push =>
      exact
        { depth := congrArg (· + 1) describes.depth
          records := describes.records.push }
  | pop =>
      refine describes.giveUp ?_ ?_
      · rw [describes.depth]
        exact stack.depth_pop
      · rw [describes.depth]
        refine stack.frames_pop.trans (congrArg (stack.frames.drop ·) ?_)
        omega
  | truncate depth =>
      refine describes.giveUp ?_ ?_
      · rw [describes.depth]
        exact stack.depth_truncate depth
      · rw [describes.depth]
        refine (stack.frames_truncate depth).trans (congrArg (stack.frames.drop ·) ?_)
        omega
  | declare name cell =>
      have isDepth : ledger.depth = stack.below.length + 1 := describes.depth
      have records := describes.records.declare name cell
      rw [← isDepth] at records
      exact { depth := isDepth, records }

/-- A ledger in which all operations are entered is right about the stack that they lead to. -/
theorem Describes.run
    (describes : ledger.Describes stack)
    (operations : List Operation) :
    (operations.foldl Ledger.enter ledger).Describes (stack.run operations) := by
  induction operations generalizing ledger stack with
  | nil => exact describes
  | cons operation rest inductionHypothesis =>
      exact inductionHypothesis (describes.enter operation)

end Ledger

/-- A name means what was declared for it last, among the declarations in force. -/
theorem lookup?_eq_latest?
    (operations : List Operation)
    (name : String) :
    (global.run operations).lookup? name = (Ledger.ofOperations operations).latest? name :=
  (Ledger.describes_start.run operations).records.findSome?_eq name

/-! ## Frames that outlast operations -/

/-- There are never fewer frames, while operations are done, than there were before. -/
def Outlasts (stack : FrameStack) (operations : List Operation) : Prop :=
  ∀ done, done <+: operations → stack.depth ≤ (stack.run done).depth

instance (operations : List Operation) : Decidable (stack.Outlasts operations) :=
  decidable_of_iff (∀ done ∈ operations.inits, stack.depth ≤ (stack.run done).depth)
    (forall_congr' fun done => imp_congr (List.mem_inits done operations) .rfl)

/-- The newest frame of one stack, or what has become of it, is still there in another one. -/
def StandsIn (base stack : FrameStack) : Prop :=
  ∃ upper, upper ≠ [] ∧ stack.frames = upper ++ base.below

namespace StandsIn

variable {base : FrameStack}

/-- The frames that stand in for the newest one are counted from the base. -/
theorem depth_eq
    {upper : List Frame}
    (frames : stack.frames = upper ++ base.below) :
    stack.depth + 1 = upper.length + base.depth := by
  rw [← length_frames, frames, List.length_append, depth]
  omega

/-- Dropping frames leaves the newest frame of the base while as many frames are left. -/
theorem drop
    (stands : base.StandsIn stack)
    {after : FrameStack}
    {count : Nat}
    (frames : after.frames = stack.frames.drop count)
    (deepEnough : base.depth ≤ after.depth) :
    base.StandsIn after := by
  obtain ⟨upper, -, isUpper⟩ := stands
  have within : count < upper.length := by
    have before := depth_eq isUpper
    have left := congrArg List.length frames
    have positive := after.depth_pos
    rw [List.length_drop, length_frames, length_frames] at left
    omega
  refine ⟨upper.drop count, ?_, ?_⟩
  · rw [ne_eq, List.drop_eq_nil_iff]
    omega
  · rw [frames, isUpper, List.drop_append_of_le_length (Nat.le_of_lt within)]

/-- An operation that leaves a stack deep enough leaves the newest frame of the base there. -/
theorem apply
    (stands : base.StandsIn stack)
    {operation : Operation}
    (deepEnough : base.depth ≤ (stack.apply operation).depth) :
    base.StandsIn (stack.apply operation) := by
  cases operation with
  | push =>
      obtain ⟨upper, -, isUpper⟩ := stands
      exact ⟨Frame.empty :: upper, List.cons_ne_nil _ _, congrArg (Frame.empty :: ·) isUpper⟩
  | pop => exact stands.drop stack.frames_pop deepEnough
  | truncate depth => exact stands.drop (stack.frames_truncate depth) deepEnough
  | declare name cell =>
      obtain ⟨upper, isSome, isUpper⟩ := stands
      obtain ⟨top, rest, rfl⟩ := List.exists_cons_of_ne_nil isSome
      obtain ⟨isTop, isBelow⟩ := List.cons.inj isUpper
      refine ⟨top.bind name cell :: rest, List.cons_ne_nil _ _, ?_⟩
      rw [← isTop]
      exact congrArg (stack.top.bind name cell :: ·) isBelow

/-- Operations that never make a stack too shallow leave the newest frame of the base there. -/
theorem run
    (stands : base.StandsIn stack)
    {operations : List Operation}
    (deepEnough : ∀ done, done <+: operations → base.depth ≤ (stack.run done).depth) :
    base.StandsIn (stack.run operations) := by
  induction operations generalizing stack with
  | nil => exact stands
  | cons operation rest inductionHypothesis =>
      have afterOne : base.depth ≤ (stack.apply operation).depth :=
        deepEnough [operation] (List.prefix_cons_inj operation |>.mpr List.nil_prefix)
      exact inductionHypothesis (stands.apply afterOne) fun done isDone =>
        deepEnough (operation :: done) (List.prefix_cons_inj operation |>.mpr isDone)

end StandsIn

/-- Operations that a new frame outlasts change nothing below it. -/
theorem frames_run_push
    {operations : List Operation}
    (outlasts : stack.push.Outlasts operations) :
    ∃ upper, upper ≠ [] ∧ (stack.push.run operations).frames = upper ++ stack.frames :=
  StandsIn.run ⟨[Frame.empty], List.cons_ne_nil _ _, rfl⟩ outlasts

/--
Dropping the frames above the old ones gives back the stack that a frame was added to,
whatever was done as long as that frame was there.  Dropping one frame alone does so
exactly if no other one is left on top of it.
-/
theorem dropped_after_outlasted
    {operations : List Operation}
    (outlasts : stack.push.Outlasts operations) :
    (stack.push.run operations).truncate stack.depth = stack ∧
      ((stack.push.run operations).pop = stack ↔
        (stack.push.run operations).depth = stack.push.depth) := by
  obtain ⟨upper, isSome, isUpper⟩ := frames_run_push outlasts
  have depth : (stack.push.run operations).depth = upper.length + stack.depth := by
    rw [← length_frames, isUpper, List.length_append, length_frames]
  have positive := stack.depth_pos
  have nonempty : 0 < upper.length := List.length_pos_iff.mpr isSome
  refine ⟨?_, fun same => ?_, fun same => ?_⟩
  · apply eq_of_frames
    have above : upper.length + stack.depth - max stack.depth 1 = upper.length := by omega
    rw [frames_truncate, depth, above, isUpper, List.drop_left]
  · have popped := depth_pop (stack.push.run operations)
    rw [same] at popped
    rw [depth_push]
    omega
  · apply eq_of_frames
    rw [depth_push] at same
    have one : min 1 ((stack.push.run operations).depth - 1) = upper.length := by omega
    rw [frames_pop, one, isUpper, List.drop_left]

/--
Whatever is done to a new stack, looking a name up gives the entry of the flattened
frames, and what was declared last among the declarations still in force.  The
flattened frames bind each name of any frame once and no other name.  There is always
a frame.  Operations that never drop a frame just added leave all below it as it is:
giving up what is above gives back the stack from before, and so does dropping a single
frame exactly if the operations have left the added one on top.
-/
theorem lookup_is_flattened_shadowing
    (operations : List Operation)
    (name : String) :
    let stack := global.run operations
    stack.lookup? name = stack.flatten.lookup? name ∧
      stack.lookup? name = (Ledger.ofOperations operations).latest? name ∧
      stack.binds name = (stack.lookup? name).isSome ∧
      (name ∈ stack.flatten.names ↔ ∃ frame ∈ stack.frames, name ∈ frame.names) ∧
      stack.flatten.names.Nodup ∧
      1 ≤ stack.depth ∧
      ∀ inner,
        stack.push.Outlasts inner →
        (stack.push.run inner).truncate stack.depth = stack ∧
          ((stack.push.run inner).pop = stack ↔
            (stack.push.run inner).depth = stack.push.depth) := by
  intro stack
  have distinct : stack.Distinct := distinct_global.run operations
  exact ⟨(lookup?_flatten distinct name).symm, lookup?_eq_latest? operations name,
    stack.binds_eq_isSome_lookup? name, mem_names_flatten, stack.distinct_flatten,
    stack.depth_pos, fun _ outlasts => dropped_after_outlasted outlasts⟩

/-- Giving up both frames uncovers the outer declaration. -/
theorem truncate_uncovers_outer_declaration :
    let stack := global.run [.declare "x" ⟨0⟩]
    let inner := [.declare "x" ⟨1⟩, .push]
    stack.push.Outlasts inner ∧
      (stack.push.run inner).lookup? "x" = some ⟨1⟩ ∧
      ((stack.push.run inner).truncate stack.depth).lookup? "x" = some ⟨0⟩ := by
  intro stack inner
  have outlasts : stack.push.Outlasts inner := by decide
  obtain ⟨-, -, -, -, -, -, dropped⟩ := lookup_is_flattened_shadowing [.declare "x" ⟨0⟩] "x"
  obtain ⟨truncated, -⟩ := dropped inner outlasts
  refine ⟨outlasts, by decide, ?_⟩
  rw [truncated]
  decide

/-- A second frame left on top is what a pop drops, so the outer declaration stays hidden. -/
theorem pop_drops_frame_left_on_top :
    let stack := global.run [.declare "x" ⟨0⟩]
    let inner := [.declare "x" ⟨1⟩, .push]
    stack.push.Outlasts inner ∧
      (stack.push.run inner).pop ≠ stack ∧
      (stack.push.run inner).pop.lookup? "x" = some ⟨1⟩ ∧
      stack.lookup? "x" = some ⟨0⟩ := by
  intro stack inner
  exact ⟨by decide, by decide, by decide, by decide⟩

end FrameStack

end CellScript
