import CellScript.Heap.Display
import CellScript.Numeral.Real

namespace CellScript

/-!
# Operators

Arithmetic and comparison read the scalar behind a value: a list stands for its
joined text, and the absent value and functions have no scalar.  Nothing fails:
arithmetic that has no result is absent, and an order that does not exist does
not hold.
-/

/-- The scalar behind a value. -/
inductive Scalar where
  /-- There is none. -/
  | undefined
  | boolean (value : Bool)
  | integer (value : Int64)
  | text (content : String)
  deriving Repr, DecidableEq

/-- The operators of arithmetic. -/
inductive Arithmetic where
  | add
  | subtract
  | multiply
  | divide
  deriving Repr, DecidableEq

/-- The operators of comparison. -/
inductive Comparison where
  | less
  | greater
  | atMost
  | atLeast
  | equal
  | unequal
  deriving Repr, DecidableEq

namespace Scalar

/-- A truth value as an integer. -/
def ofTruth (value : Bool) : Int64 :=
  if value then 1 else 0

/-- The scalar behind a value. -/
def ofValue (heap : Heap) : Value → Scalar
  | .none => .undefined
  | .boolean value => .boolean value
  | .integer value => .integer value
  | .text content => .text content
  | .list slots => .text (Value.join heap (.list slots))
  | .function .. => .undefined

/-- The integer that a text reads as: zero when it is blank. -/
def integerOfText? (content : String) : Option Int64 :=
  match Text.trim content.toList with
  | [] => some 0
  | trimmed => Decimal.readInt64? trimmed

/-- The number that a text reads as: zero when it is blank. -/
def numberOfText? (content : String) : Option Binary64 :=
  match Text.trim content.toList with
  | [] => some Binary64.zero
  | trimmed => Decimal.readBinary64? trimmed

/-- The integer that a scalar stands for in arithmetic. -/
def toInteger? : Scalar → Option Int64
  | .undefined => none
  | .boolean value => some (ofTruth value)
  | .integer value => some value
  | .text content => integerOfText? content

/-- The number that a scalar stands for in a comparison. -/
def toNumber? : Scalar → Option Binary64
  | .undefined => none
  | .boolean value => some (Binary64.ofInt64 (ofTruth value))
  | .integer value => some (Binary64.ofInt64 value)
  | .text content => numberOfText? content

/-- The text that a scalar adds to another text. -/
def toText : Scalar → String
  | .undefined => "none"
  | .boolean value => Value.truthText value
  | .integer value => Value.integerText value
  | .text content => content

/-- A scalar that is a text. -/
def isText : Scalar → Bool
  | .text _ => true
  | _ => false

/-- Texts are ordered by code points, integers as such, and all else as numbers. -/
def order? : Scalar → Scalar → Option Ordering
  | .text left, .text right => some (compare left right)
  | .integer left, .integer right => some (compare left.toInt right.toInt)
  | left, right => do
      let left ← left.toNumber?
      let right ← right.toNumber?
      return left.compare right

/-- An integer equals a text that reads as the number nearest to it. -/
def integerEqualsText (value : Int64) (content : String) : Bool :=
  numberOfText? content = some (Binary64.ofInt64 value)

/-- An integer equals another integer and, as a number, a text. -/
def integerEquals (value : Int64) : Scalar → Bool
  | .undefined => false
  | .boolean other => value = ofTruth other
  | .integer other => value = other
  | .text content => integerEqualsText value content

/-- Scalars are equal within a type, and across types as numbers. -/
def looselyEqual : Scalar → Scalar → Bool
  | .undefined, .undefined => true
  | .undefined, _ => false
  | _, .undefined => false
  | .boolean left, .boolean right => left = right
  | .text left, .text right => left = right
  | .boolean left, right => integerEquals (ofTruth left) right
  | left, .boolean right => integerEquals (ofTruth right) left
  | .integer left, right => integerEquals left right
  | left, .integer right => integerEquals right left

end Scalar

namespace Arithmetic

/-- The operator that a word names. -/
def ofWord? : String → Option Arithmetic
  | "+" => some .add
  | "-" => some .subtract
  | "*" => some .multiply
  | "/" => some .divide
  | _ => none

/-- The exact result of an operator on integers; a quotient is cut towards zero. -/
def result? (operator : Arithmetic) (left right : Int) : Option Int :=
  match operator with
  | .add => some (left + right)
  | .subtract => some (left - right)
  | .multiply => some (left * right)
  | .divide => if right = 0 then none else some (left.tdiv right)

/-- The result of an operator on 64-bit integers, when it is one itself. -/
def compute? (operator : Arithmetic) (left right : Int64) : Option Int64 :=
  (operator.result? left.toInt right.toInt).bind Decimal.toInt64?

/-- The result of an operator on scalars; adding to a text joins the two texts. -/
def onScalars (operator : Arithmetic) (left right : Scalar) : Value :=
  if operator = .add ∧ (left.isText || right.isText) then
    .text (left.toText ++ right.toText)
  else
    match left.toInteger?, right.toInteger? with
    | some left, some right =>
        match operator.compute? left right with
        | some result => .integer result
        | none => .none
    | _, _ => .none

/-- The result of an operator on the values in two cells. -/
def apply (operator : Arithmetic) (heap : Heap) (left right : Cell) : Value :=
  operator.onScalars
    (Scalar.ofValue heap (heap.read left))
    (Scalar.ofValue heap (heap.read right))

end Arithmetic

namespace Comparison

/-- The operator that a word names. -/
def ofWord? : String → Option Comparison
  | "<" => some .less
  | ">" => some .greater
  | "<=" => some .atMost
  | ">=" => some .atLeast
  | "=" => some .equal
  | "!=" => some .unequal
  | _ => none

/-- Two cells are loosely equal when they are one cell or hold equal scalars, but not two lists. -/
def looselyEqual (heap : Heap) (left right : Cell) : Bool :=
  if left = right then
    true
  else if (heap.read left).isList && (heap.read right).isList then
    false
  else
    (Scalar.ofValue heap (heap.read left)).looselyEqual
      (Scalar.ofValue heap (heap.read right))

/-- The order of the values in two cells, when there is one. -/
def order? (heap : Heap) (left right : Cell) : Option Ordering :=
  (Scalar.ofValue heap (heap.read left)).order?
    (Scalar.ofValue heap (heap.read right))

/-- An operator holds between the values in two cells. -/
def holds (operator : Comparison) (heap : Heap) (left right : Cell) : Bool :=
  match operator with
  | .equal => looselyEqual heap left right
  | .unequal => !looselyEqual heap left right
  | .less => order? heap left right = some .lt
  | .greater => order? heap left right = some .gt
  | .atMost => (order? heap left right).any (· ≠ .gt)
  | .atLeast => (order? heap left right).any (· ≠ .lt)

end Comparison

end CellScript
