import CellScript.Value

namespace CellScript

/-!
# Frames

Names are bound in frames, and frames are stacked.  A name means the cell that
the newest frame binding it gives it, so a frame hides what the frames below it
bind.  The lowest frame, the global one, always stays.
-/

/-- The bindings of one level. -/
structure Frame where
  bindings : List (String × Cell)
  deriving Repr, DecidableEq

namespace Frame

/-- The frame without bindings. -/
def empty : Frame :=
  { bindings := [] }

/-- The cell bound to a name. -/
def lookup? (frame : Frame) (name : String) : Option Cell :=
  frame.bindings.lookup name

/-- Put a binding in the place of one of the same name, or behind all others. -/
def put (name : String) (cell : Cell) : List (String × Cell) → List (String × Cell)
  | [] => [(name, cell)]
  | (bound, old) :: rest =>
      if name = bound then
        (name, cell) :: rest
      else
        (bound, old) :: put name cell rest

/-- Bind a name, in place of any earlier binding of it. -/
def bind (frame : Frame) (name : String) (cell : Cell) : Frame :=
  { bindings := put name cell frame.bindings }

/-- A binding just put is found. -/
private theorem lookup_put_self
    (name : String)
    (cell : Cell)
    (bindings : List (String × Cell)) :
    (put name cell bindings).lookup name = some cell := by
  induction bindings with
  | nil => simp [put]
  | cons binding rest inductionHypothesis =>
      obtain ⟨bound, old⟩ := binding
      by_cases same : name = bound
      · simp [put, same]
      · have differ : (name == bound) = false := by simp [same]
        simp [put, same, List.lookup_cons, differ, inductionHypothesis]

/-- Putting a binding changes what no other name finds. -/
private theorem lookup_put_of_ne
    {name other : String}
    (cell : Cell)
    (bindings : List (String × Cell))
    (differ : other ≠ name) :
    (put name cell bindings).lookup other = bindings.lookup other := by
  have differs : (other == name) = false := by simp [differ]
  induction bindings with
  | nil => simp [put, List.lookup_cons, differs]
  | cons binding rest inductionHypothesis =>
      obtain ⟨bound, old⟩ := binding
      by_cases same : name = bound
      · subst same
        simp [put, List.lookup_cons, differs]
      · simp [put, same, List.lookup_cons, inductionHypothesis]

/-- A name just bound means the cell it was bound to. -/
@[simp]
theorem lookup?_bind_self
    (frame : Frame)
    (name : String)
    (cell : Cell) :
    (frame.bind name cell).lookup? name = some cell :=
  lookup_put_self name cell frame.bindings

/-- Binding a name changes the meaning of no other name. -/
theorem lookup?_bind_of_ne
    {name other : String}
    (frame : Frame)
    (cell : Cell)
    (differ : other ≠ name) :
    (frame.bind name cell).lookup? other = frame.lookup? other :=
  lookup_put_of_ne cell frame.bindings differ

/-- The bindings of two frames, those of the upper one hiding those of the lower one. -/
def onto (upper lower : Frame) : Frame :=
  upper.bindings.foldl (fun frame binding => frame.bind binding.1 binding.2) lower

end Frame

/-- A stack of frames that holds at least one. -/
structure FrameStack where
  /-- The newest frame. -/
  top : Frame
  /-- The other frames, the newest first. -/
  below : List Frame
  deriving Repr, DecidableEq

namespace FrameStack

/-- An empty global frame alone. -/
def global : FrameStack :=
  { top := Frame.empty, below := [] }

/-- All frames, the newest first. -/
def frames (stack : FrameStack) : List Frame :=
  stack.top :: stack.below

/-- The number of frames. -/
def depth (stack : FrameStack) : Nat :=
  stack.below.length + 1

/-- Add an empty frame. -/
def push (stack : FrameStack) : FrameStack :=
  { top := Frame.empty, below := stack.frames }

/-- Drop the newest frame, unless it is the global one. -/
def pop (stack : FrameStack) : FrameStack :=
  match stack.below with
  | [] => stack
  | top :: below => { top, below }

/-- Drop the newest frames until at most `depth` are left, but never the global one. -/
def truncate (stack : FrameStack) (depth : Nat) : FrameStack :=
  Nat.repeat pop (stack.depth - depth) stack

/-- Bind a name in the newest frame. -/
def declare (stack : FrameStack) (name : String) (cell : Cell) : FrameStack :=
  { stack with top := stack.top.bind name cell }

/-- The cell that a name means. -/
def lookup? (stack : FrameStack) (name : String) : Option Cell :=
  stack.frames.findSome? fun frame => frame.lookup? name

/-- Some frame binds a name. -/
def binds (stack : FrameStack) (name : String) : Bool :=
  stack.frames.any fun frame => (frame.lookup? name).isSome

/-- The bindings of all frames as one, newer frames hiding older ones. -/
def flatten (stack : FrameStack) : Frame :=
  stack.frames.foldr Frame.onto Frame.empty

/-- A push adds one frame. -/
@[simp]
theorem depth_push
    (stack : FrameStack) :
    stack.push.depth = stack.depth + 1 := by
  simp [push, depth, frames]

/-- A pop takes back a push. -/
@[simp]
theorem pop_push
    (stack : FrameStack) :
    stack.push.pop = stack := rfl

/-- A name just declared means the cell it was bound to. -/
@[simp]
theorem lookup?_declare_self
    (stack : FrameStack)
    (name : String)
    (cell : Cell) :
    (stack.declare name cell).lookup? name = some cell := by
  simp [lookup?, declare, frames]

/-- Declaring a name changes the meaning of no other name. -/
theorem lookup?_declare_of_ne
    {name other : String}
    (stack : FrameStack)
    (cell : Cell)
    (differ : other ≠ name) :
    (stack.declare name cell).lookup? other = stack.lookup? other := by
  have top := Frame.lookup?_bind_of_ne stack.top cell differ
  simp only [lookup?, declare, frames, List.findSome?_cons, top]

/-- A stack is never empty. -/
theorem depth_pos
    (stack : FrameStack) :
    0 < stack.depth := by
  simp [depth]

end FrameStack

end CellScript
