import CellScript.Tree

namespace CellScript

/-!
# Values

Values live in cells.  Names, list slots and parameters hold cells, not values,
so one cell may be reached in several ways, and overwriting it is seen in all of
them.  A function carries its parameters and its body and no bindings: the names
in its body mean what they mean where it is called.
-/

/-- A place in the heap. -/
structure Cell where
  index : Nat
  deriving Repr, DecidableEq

/-- A value. -/
inductive Value where
  /-- The absent value. -/
  | none
  | boolean (value : Bool)
  | integer (value : Int64)
  | text (content : String)
  /-- A list of cells. -/
  | list (slots : List Cell)
  | function (parameters : List String) (body : Node)
  deriving Repr, DecidableEq

namespace Value

/-- The name of the type of a value. -/
def typeName : Value → String
  | .none => "None"
  | .boolean _ => "Boolean"
  | .integer _ => "Integer"
  | .text _ => "String"
  | .list _ => "List"
  | .function .. => "Function"

/-- Lists count as true even when empty; the absent value and functions never do. -/
def isTruthy : Value → Bool
  | .none => false
  | .boolean value => value
  | .integer value => value ≠ 0
  | .text content => content ≠ ""
  | .list _ => true
  | .function .. => false

/-- A value that is a function. -/
def isFunction : Value → Bool
  | .function .. => true
  | _ => false

/-- A value that is a list. -/
def isList : Value → Bool
  | .list _ => true
  | _ => false

/-- The position that an integer names when it is not negative. -/
def position? : Value → Option Nat
  | .integer value => if 0 ≤ value.toInt then some value.toInt.toNat else Option.none
  | _ => Option.none

end Value

end CellScript
