/-!
# Values

The values of the script language. What has contents that can change, or an identity of its own,
is a reference to a cell of the heap: two such values are the same if their references are equal.
-/

namespace Doctest.Script

/-- The kinds of cells of the heap. -/
inductive CellKind where
  | array
  | object
  | error
  | callable
  | promise
  | frame
  deriving DecidableEq, Repr

/-- A reference to a cell of a kind. -/
structure Ref (kind : CellKind) where
  index : Nat
  deriving DecidableEq, Repr

/-- A value. -/
inductive Value where
  | undefined
  | null
  | bool (b : Bool)
  | number (x : Float)
  | string (s : String)
  | array (cell : Ref .array)
  | object (cell : Ref .object)
  | error (cell : Ref .error)
  | callable (cell : Ref .callable)
  | promise (cell : Ref .promise)
  deriving DecidableEq

instance : Inhabited Value :=
  ⟨.undefined⟩

namespace Value

/-- What `typeof` says of a value. -/
def typeName : Value → String
  | .undefined => "undefined"
  | .bool _ => "boolean"
  | .number _ => "number"
  | .string _ => "string"
  | .callable _ => "function"
  | .null | .array _ | .object _ | .error _ | .promise _ => "object"

/-- Whether a value counts as true in a condition. -/
def isTruthy : Value → Bool
  | .undefined | .null => false
  | .bool b => b
  | .number x => !(x == 0.0) && !x.isNaN
  | .string s => !s.isEmpty
  | _ => true

/-- Whether a value is `undefined` or `null`. -/
def isNullish : Value → Bool
  | .undefined | .null => true
  | _ => false

/-- Whether a value can be called. -/
def isCallable : Value → Bool
  | .callable _ => true
  | _ => false

/-- Whether a value is no reference. -/
def isPrimitive : Value → Bool
  | .undefined | .null | .bool _ | .number _ | .string _ => true
  | _ => false

/-- Whether two values are the same reference. -/
def isSameCell : Value → Value → Bool
  | .array a, .array b => a = b
  | .object a, .object b => a = b
  | .error a, .error b => a = b
  | .callable a, .callable b => a = b
  | .promise a, .promise b => a = b
  | _, _ => false

end Value

end Doctest.Script
