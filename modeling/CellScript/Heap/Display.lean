import CellScript.Heap

namespace CellScript.Value

/-!
# Values as text

Printing shows a text without quotation marks and a list with its items in
square brackets, texts inside it quoted.  Where a list meets a scalar it reads as
the text of its items with commas between them.  Lists may contain themselves,
so both forms stop at lists that lie too deep.
-/

/-- The number of lists that a text shows inside each other before it cuts them off. -/
def depthLimit : Nat := 64

/-- The text of a truth value. -/
def truthText (value : Bool) : String :=
  if value then "true" else "false"

/-- The decimal text of an integer. -/
def integerText (value : Int64) : String :=
  String.ofList (Decimal.ofInt value.toInt)

/-- The quoted text of a value, opening at most `room` lists inside each other. -/
def displayWithin (heap : Heap) : (room : Nat) → Value → String
  | _, .none => "none"
  | _, .boolean value => truthText value
  | _, .integer value => integerText value
  | _, .text content => "\"" ++ content ++ "\""
  | _, .function .. => "none"
  | 0, .list _ => "[...]"
  | room + 1, .list slots =>
      "[" ++
        String.intercalate ", "
          (slots.map fun slot => displayWithin heap room (heap.read slot)) ++
        "]"

/-- The text of a value, quoted when it is a text. -/
def display (heap : Heap) (value : Value) : String :=
  displayWithin heap depthLimit value

/-- The text of a value as it is printed. -/
def render (heap : Heap) (value : Value) : String :=
  match value with
  | .text content => content
  | other => other.display heap

/-- A value that has a scalar reading. -/
def hasScalar : Value → Bool
  | .none => false
  | .function .. => false
  | _ => true

/-- The joined text of a value, opening at most `room` lists inside each other. -/
def joinWithin (heap : Heap) : (room : Nat) → Value → String
  | _, .none => "none"
  | _, .boolean value => truthText value
  | _, .integer value => integerText value
  | _, .text content => content
  | _, .function .. => "none"
  | 0, .list _ => ""
  | room + 1, .list slots =>
      String.intercalate ","
        (slots.map fun slot =>
          let item := heap.read slot
          if item.hasScalar then joinWithin heap room item else "")

/-- The text of a value with the items of lists joined by commas. -/
def join (heap : Heap) (value : Value) : String :=
  joinWithin heap depthLimit value

/-- A text is printed as it is. -/
@[simp]
theorem render_text
    (heap : Heap)
    (content : String) :
    render heap (.text content) = content := rfl

end CellScript.Value
