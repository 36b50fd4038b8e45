import Doctest.Script.Convert

/-!
# Equality

The equalities of the script language: `===`, `==`, the one that finds items in arrays, and the
deep one that compares what containers hold.
-/

namespace Doctest.Script

namespace Value

/-- Whether two values are numbers that are no numbers. -/
def areNaN : Value → Value → Bool
  | .number x, .number y => x.isNaN && y.isNaN
  | _, _ => false

/-- The equality `===`. -/
def strictEquals : Value → Value → Bool
  | .undefined, .undefined | .null, .null => true
  | .bool a, .bool b => a = b
  | .number x, .number y => x == y
  | .string s, .string t => s = t
  | a, b => a.isSameCell b

/-- The equality that finds items in arrays: `===`, but what is not a number equals itself. -/
def sameValueZero (a b : Value) : Bool :=
  areNaN a b || strictEquals a b

/-- The equality `==` of values that are no references: `undefined` and `null` are equal, strings
compare as they are and all else as numbers. -/
def primitiveEquals (a b : Value) : Bool :=
  if a.isNullish || b.isNullish then a.isNullish && b.isNullish
  else
    match a, b with
    | .string s, .string t => s = t
    | a, b => a.primitiveNumber == b.primitiveNumber

end Value

/-- A value, or its text if it is a reference. -/
def Heap.primitive? (heap : Heap) (value : Value) : Option Value :=
  if value.isPrimitive then some value else (heap.text? value).map .string

/-- The equality `==`. A reference is compared to another one by identity, and to anything else
as its text. -/
def Heap.looseEquals? (heap : Heap) (a b : Value) : Option Bool :=
  if a.isNullish || b.isNullish then some (a.isNullish && b.isNullish)
  else if !a.isPrimitive && !b.isPrimitive then some (a.isSameCell b)
  else do
    return (← heap.primitive? a).primitiveEquals (← heap.primitive? b)

/-- Whether two objects have the same keys with equal values. -/
def sameProperties (equal : Value → Value → Bool) (a b : Dict Value) : Bool :=
  a.size = b.size &&
    a.entries.all fun (key, value) =>
      match b.get? key with
      | some other => equal value other
      | none => false

/-- Whether two values are equal, given pairs of containers that are being compared already and
are taken to be equal. Pairs may be nested at most so many levels deep. -/
def equalWithin (heap : Heap) : Nat → List (Place × Place) → Value → Value → Bool
  | 0, _, _, _ => true
  | levels + 1, met, a, b =>
    match a, b with
    | .array x, .array y =>
      x = y || (x.place, y.place) ∈ met ||
        (let xs := heap.get x
         let ys := heap.get y
         xs.size = ys.size &&
          (xs.toList.zip ys.toList).all fun (a, b) =>
            equalWithin heap levels ((x.place, y.place) :: met) a b)
    | .object x, .object y =>
      x = y || (x.place, y.place) ∈ met ||
        sameProperties (equalWithin heap levels ((x.place, y.place) :: met)) (heap.get x)
          (heap.get y)
    | .error x, .error y =>
      x = y || (x.place, y.place) ∈ met ||
        (let e := heap.get x
         let f := heap.get y
         e.name = f.name && e.message = f.message &&
          sameProperties (equalWithin heap levels ((x.place, y.place) :: met)) e.properties
            f.properties)
    | a, b =>
      if a.isPrimitive && b.isPrimitive then Value.areNaN a b || a.primitiveEquals b
      else a.isSameCell b

/-- More than the number of pairs of containers of one kind. -/
def Heap.pairs (heap : Heap) : Nat :=
  Nat.pow (heap.count .array) 2 + Nat.pow (heap.count .object) 2 +
    Nat.pow (heap.count .error) 2 + 1

/-- The deep equality: values that are no references compare by `==`, arrays by their items,
objects by their keys and values whatever their order, errors by all they hold, and the rest by
identity. Nothing that is no reference equals a reference. -/
def Heap.deepEquals (heap : Heap) (a b : Value) : Bool :=
  equalWithin heap heap.pairs [] a b

end Doctest.Script
