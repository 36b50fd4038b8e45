import Doctest.Number.Binary
import Doctest.Script.Equality
import Doctest.Script.Tree

/-!
# Operators

What the operators make of values. Only a text without an end keeps them from a result.
-/

namespace Doctest.Script

/-- The power of a number. To an exponent that is no number there is none. -/
def power (base exponent : Float) : Float :=
  if exponent.isNaN then 0.0 / 0.0 else Float.pow base exponent

/-- Whether a value makes `+` put texts together: a string or a reference. -/
def Value.concatenates : Value → Bool
  | .string _ => true
  | value => !value.isPrimitive

namespace Heap

/-- The result of an operator on numbers. -/
def arithmetic (heap : Heap) (f : Float → Float → Float) (a b : Value) : Option Value := do
  return .number (f (← heap.number? a) (← heap.number? b))

/-- The result of `+`. -/
def add (heap : Heap) (a b : Value) : Option Value :=
  if a.concatenates || b.concatenates then do
    return .string ((← heap.text? a) ++ (← heap.text? b))
  else heap.arithmetic (· + ·) a b

/-- The result of a comparison: of texts if both values are strings, and else of numbers. -/
def compare (heap : Heap) (texts : String → String → Bool) (numbers : Float → Float → Bool)
    (a b : Value) : Option Value :=
  match a, b with
  | .string s, .string t => some (.bool (texts s t))
  | a, b => do
    return .bool (numbers (← heap.number? a) (← heap.number? b))

/-- The result of an operator that takes both of its operands. -/
def operate (heap : Heap) (op : BinaryOp) (a b : Value) : Option Value :=
  match op with
  | .add => heap.add a b
  | .sub => heap.arithmetic (· - ·) a b
  | .mul => heap.arithmetic (· * ·) a b
  | .div => heap.arithmetic (· / ·) a b
  | .rem => heap.arithmetic Number.remainder a b
  | .pow => heap.arithmetic power a b
  | .looseEq => (heap.looseEquals? a b).map .bool
  | .looseNe => (heap.looseEquals? a b).map fun equal => .bool !equal
  | .strictEq => some (.bool (a.strictEquals b))
  | .strictNe => some (.bool !(a.strictEquals b))
  | .lt => heap.compare (· < ·) (· < ·) a b
  | .le => heap.compare (· ≤ ·) (· ≤ ·) a b
  | .gt => heap.compare (· > ·) (· > ·) a b
  | .ge => heap.compare (· ≥ ·) (· ≥ ·) a b

end Heap

/-- Whether the left operand of an operator is its result, so that the right one is left alone. -/
def LogicalOp.settledBy (op : LogicalOp) (left : Value) : Bool :=
  match op with
  | .and => !left.isTruthy
  | .or => left.isTruthy
  | .nullish => !left.isNullish

/-- The result of an operator before an operand. -/
def Heap.operateUnary (heap : Heap) (op : UnaryOp) (value : Value) : Option Value :=
  match op with
  | .not => some (.bool !value.isTruthy)
  | .neg => (heap.number? value).map fun x => .number (-x)
  | .plus => (heap.number? value).map .number
  | .typeof => some (.string value.typeName)

end Doctest.Script
