import CellScript.Proofs.EvaluationContract
import CellScript.Program

namespace CellScript

/-!
# Frame discipline

Evaluation binds names in the newest frame only, and every frame that it adds is
dropped again, whether evaluation comes to its end, is left by a return signal or
fails.  So a program, which runs in a frame of its own, leaves the frames as it
found them.
-/

namespace FrameStack

/-- Only the newest frame has changed, and it still binds every name that it bound. -/
structure GrowsTo (before after : FrameStack) : Prop where
  below : after.below = before.below
  binds : ∀ name,
    (before.top.lookup? name).isSome = true → (after.top.lookup? name).isSome = true

namespace GrowsTo

theorem refl
    (stack : FrameStack) :
    stack.GrowsTo stack :=
  ⟨rfl, fun _ bound => bound⟩

theorem trans
    {first second third : FrameStack}
    (earlier : first.GrowsTo second)
    (later : second.GrowsTo third) :
    first.GrowsTo third :=
  ⟨later.below.trans earlier.below,
    fun name bound => later.binds name (earlier.binds name bound)⟩

theorem depth
    {before after : FrameStack}
    (grows : before.GrowsTo after) :
    after.depth = before.depth := by
  simp only [FrameStack.depth, grows.below]

/-- Binding a name changes no frame but the newest. -/
theorem declare
    (stack : FrameStack)
    (name : String)
    (cell : Cell) :
    stack.GrowsTo (stack.declare name cell) where
  below := rfl
  binds other bound := by
    by_cases same : other = name
    · subst same
      simp [FrameStack.declare]
    · simpa [FrameStack.declare, Frame.lookup?_bind_of_ne stack.top cell same] using bound

/-- Whatever a new frame grows to, dropping it leads back to the stack it was added to. -/
theorem pop_eq
    {stack after : FrameStack}
    (grows : stack.push.GrowsTo after) :
    after.pop = stack := by
  have below : after.below = stack.top :: stack.below := grows.below
  rw [FrameStack.pop, below]

/-- Dropping all frames above those of the old stack drops the new one alone. -/
theorem truncate_eq
    {stack after : FrameStack}
    (grows : stack.push.GrowsTo after) :
    after.truncate stack.depth = stack := by
  have oneMore : after.depth - stack.depth = 1 := by
    rw [grows.depth, depth_push]
    omega
  rw [FrameStack.truncate, oneMore]
  exact grows.pop_eq

end GrowsTo

end FrameStack

/-- The newest frame grows and no other frame changes, whatever the exit. -/
def frameDiscipline : Contract where
  invariant _ := True
  relates before _ after := before.frames.GrowsTo after.frames

namespace frameDiscipline

/-- A step that leaves the frames alone keeps to the discipline. -/
private theorem accepts_of_same_frames
    {before after : Machine}
    (exit : Option Exit)
    (same : after.frames = before.frames) :
    frameDiscipline.Accepts before exit after where
  invariant := trivial
  relates := by
    change before.frames.GrowsTo after.frames
    rw [same]
    exact .refl _

/-- All nodes may be evaluated under the frame discipline. -/
theorem lawful : frameDiscipline.Lawful fun _ => True where
  stays _ := .refl _
  joins earlier later := earlier.trans later
  fails _ _ := .refl _
  returns _ _ := .refl _
  takes kept := kept
  allocates _ _ := accepts_of_same_frames none rfl
  allocatesFunction _ _ := accepts_of_same_frames none rfl
  assigns _ _ := accepts_of_same_frames none rfl
  splices _ _ := accepts_of_same_frames none rfl
  declares _ := ⟨trivial, .declare _ _ _⟩
  prints _ _ :=
    Action.printLine_meetsAt (accepts_of_same_frames _ rfl) (accepts_of_same_frames _ rfl)
  pushes _ := trivial
  pops _ accepted := accepts_of_same_frames _ accepted.relates.pop_eq
  goodMembers _ _ _ _ := trivial
  goodOperands _ _ _ _ := trivial
  goodBody _ _ := trivial

end frameDiscipline

/-- A computation under the frame discipline leaves one frame to drop above the old ones. -/
theorem Action.inScope_eq_inFrame
    {α : Type}
    {action : Action α}
    (disciplined : action.Meets frameDiscipline) :
    Action.inScope action = Action.inFrame action := by
  funext machine
  have accepted :
      (action (machine.withFrames FrameStack.push)).Meets frameDiscipline
        (machine.withFrames FrameStack.push) :=
    disciplined _ trivial
  have dropped {exit : Option Exit} {after : Machine}
      (ends : frameDiscipline.Accepts (machine.withFrames FrameStack.push) exit after) :
      (after.withFrames fun frames => frames.truncate machine.frames.depth) =
        after.withFrames FrameStack.pop := by
    have grows : machine.frames.push.GrowsTo after.frames := ends.relates
    simp only [Machine.withFrames, grows.truncate_eq, grows.pop_eq]
  unfold Action.inScope Action.inFrame
  cases ended : action (machine.withFrames FrameStack.push) with
  | done value after =>
      rw [ended] at accepted
      exact congrArg (Ending.done value) (dropped accepted)
  | left exit after =>
      rw [ended] at accepted
      exact congrArg (Ending.left exit) (dropped accepted)
  | unfinished => rfl

namespace Contract.Lawful

/-- The body of a program meets every lawful contract. -/
theorem programBody
    {contract : Contract}
    {good : Node → Prop}
    (lawful : contract.Lawful good)
    (limits : Limits)
    (fuel : Nat)
    {members : List Node}
    (goodMembers : ∀ member ∈ members, good member) :
    (Program.body limits fuel members).Meets contract := by
  have evaluated : ∀ member ∈ members, (CellScript.evaluate limits fuel member).Meets contract :=
    fun member isMember => lawful.evaluation limits fuel (goodMembers member isMember)
  exact lawful.catchReturn
    (lawful.bind lawful.nothing fun absent => lawful.lastOf evaluated absent)

/-- A program meets every lawful contract. -/
theorem execute
    {contract : Contract}
    {good : Node → Prop}
    (lawful : contract.Lawful good)
    (limits : Limits)
    (fuel : Nat)
    {members : List Node}
    (goodMembers : ∀ member ∈ members, good member) :
    (Program.execute limits fuel members).Meets contract := by
  have disciplined : (Program.body limits fuel members).Meets frameDiscipline :=
    frameDiscipline.lawful.programBody limits fuel fun _ _ => trivial
  unfold Program.execute
  rw [Action.inScope_eq_inFrame disciplined]
  exact lawful.bind (lawful.inFrame (lawful.programBody limits fuel goodMembers)) fun _ =>
    fun _ holds => lawful.accepts_self holds

end Contract.Lawful

/-- A program that ends leaves the frames behind that it found. -/
theorem frames_of_execute
    {limits : Limits}
    {fuel : Nat}
    {members : List Node}
    {machine after : Machine}
    (ended : (Program.execute limits fuel members machine).machine? = some after) :
    after.frames = machine.frames := by
  have accepted :
      (Program.body limits fuel members (machine.withFrames FrameStack.push)).Meets
        frameDiscipline (machine.withFrames FrameStack.push) :=
    frameDiscipline.lawful.programBody limits fuel (fun _ _ => trivial) _ trivial
  have ended :
      ((Program.body limits fuel members).inScope machine).machine? = some after := by
    unfold Program.execute at ended
    rw [Action.bind_apply] at ended
    cases inner : (Program.body limits fuel members).inScope machine with
    | done cell between =>
        rw [inner] at ended
        exact ended
    | left exit between =>
        rw [inner] at ended
        exact ended
    | unfinished =>
        rw [inner] at ended
        cases ended
  unfold Action.inScope at ended
  rw [Ending.machine?_onMachine] at ended
  obtain ⟨between, inner, rfl⟩ := Option.map_eq_some_iff.mp ended
  obtain ⟨exit, kept⟩ := accepted.of_machine? inner
  exact kept.relates.truncate_eq

/-- However evaluation ends, only the newest frame has grown. -/
theorem FrameStack.GrowsTo.of_evaluate
    {limits : Limits}
    {fuel : Nat}
    {node : Node}
    {machine after : Machine}
    (ended : (evaluate limits fuel node machine).machine? = some after) :
    machine.frames.GrowsTo after.frames := by
  have accepted : (evaluate limits fuel node machine).Meets frameDiscipline machine :=
    frameDiscipline.lawful.evaluation limits fuel trivial machine trivial
  obtain ⟨exit, kept⟩ := accepted.of_machine? ended
  exact kept.relates

/--
However evaluation ends, the frames below the newest one are what they were and
the newest one still binds its names; however a program ends, all frames are what
they were.
-/
theorem frames_kept
    (limits : Limits)
    (fuel : Nat) :
    (∀ node machine after,
      (evaluate limits fuel node machine).machine? = some after →
      after.frames.depth = machine.frames.depth ∧
        after.frames.below = machine.frames.below ∧
        ∀ name,
          (machine.frames.top.lookup? name).isSome = true →
          (after.frames.top.lookup? name).isSome = true) ∧
    ∀ members machine after,
      (Program.execute limits fuel members machine).machine? = some after →
      after.frames = machine.frames := by
  refine ⟨?_, fun _ _ _ ended => frames_of_execute ended⟩
  intro node machine after ended
  have accepted : (evaluate limits fuel node machine).Meets frameDiscipline machine :=
    frameDiscipline.lawful.evaluation limits fuel trivial machine trivial
  obtain ⟨exit, kept⟩ := accepted.of_machine? ended
  have grows : machine.frames.GrowsTo after.frames := kept.relates
  exact ⟨grows.depth, grows.below, grows.binds⟩

end CellScript
