import Doctest.Script.Value

/-!
# Built-in functions

The functions that scripts find without defining them, and their names. Methods are bound to the
value they were read from.
-/

namespace Doctest.Script

/-- The kinds of errors. -/
inductive ErrorKind where
  | plain
  | type
  | range
  | reference
  | syntactic
  deriving DecidableEq, Repr

/-- The name of a kind of error, which is also the name of its constructor. -/
def ErrorKind.name : ErrorKind → String
  | .plain => "Error"
  | .type => "TypeError"
  | .range => "RangeError"
  | .reference => "ReferenceError"
  | .syntactic => "SyntaxError"

/-- Every kind of error. -/
def ErrorKind.all : List ErrorKind :=
  [.plain, .type, .range, .reference, .syntactic]

/-- The functions of `Math`. -/
inductive MathFunction where
  | max
  | min
  | floor
  | ceil
  | round
  | trunc
  | abs
  | sqrt
  | pow
  deriving DecidableEq, Repr

/-- The name of a function of `Math`. -/
def MathFunction.name : MathFunction → String
  | .max => "max"
  | .min => "min"
  | .floor => "floor"
  | .ceil => "ceil"
  | .round => "round"
  | .trunc => "trunc"
  | .abs => "abs"
  | .sqrt => "sqrt"
  | .pow => "pow"

/-- Every function of `Math`. -/
def MathFunction.all : List MathFunction :=
  [.max, .min, .floor, .ceil, .round, .trunc, .abs, .sqrt, .pow]

/-- The methods of arrays. -/
inductive ArrayMethod where
  | push
  | pop
  | map
  | filter
  | reduce
  | forEach
  | find
  | some
  | every
  | join
  | includes
  | indexOf
  | slice
  | concat
  | reverse
  deriving DecidableEq, Repr

/-- The name of a method of arrays. -/
def ArrayMethod.name : ArrayMethod → String
  | .push => "push"
  | .pop => "pop"
  | .map => "map"
  | .filter => "filter"
  | .reduce => "reduce"
  | .forEach => "forEach"
  | .find => "find"
  | .some => "some"
  | .every => "every"
  | .join => "join"
  | .includes => "includes"
  | .indexOf => "indexOf"
  | .slice => "slice"
  | .concat => "concat"
  | .reverse => "reverse"

/-- Every method of arrays. -/
def ArrayMethod.all : List ArrayMethod :=
  [.push, .pop, .map, .filter, .reduce, .forEach, .find, .some, .every, .join, .includes,
    .indexOf, .slice, .concat, .reverse]

/-- The methods of strings. -/
inductive StringMethod where
  | toUpperCase
  | toLowerCase
  | trim
  | trimStart
  | trimEnd
  | split
  | includes
  | startsWith
  | endsWith
  | slice
  | indexOf
  | charAt
  | repeat
  deriving DecidableEq, Repr

/-- The name of a method of strings. -/
def StringMethod.name : StringMethod → String
  | .toUpperCase => "toUpperCase"
  | .toLowerCase => "toLowerCase"
  | .trim => "trim"
  | .trimStart => "trimStart"
  | .trimEnd => "trimEnd"
  | .split => "split"
  | .includes => "includes"
  | .startsWith => "startsWith"
  | .endsWith => "endsWith"
  | .slice => "slice"
  | .indexOf => "indexOf"
  | .charAt => "charAt"
  | .repeat => "repeat"

/-- Every method of strings. -/
def StringMethod.all : List StringMethod :=
  [.toUpperCase, .toLowerCase, .trim, .trimStart, .trimEnd, .split, .includes, .startsWith,
    .endsWith, .slice, .indexOf, .charAt, .repeat]

/-- The methods of numbers. -/
inductive NumberMethod where
  | toFixed
  | toString
  deriving DecidableEq, Repr

/-- The name of a method of numbers. -/
def NumberMethod.name : NumberMethod → String
  | .toFixed => "toFixed"
  | .toString => "toString"

/-- Every method of numbers. -/
def NumberMethod.all : List NumberMethod :=
  [.toFixed, .toString]

/-- The methods of promises. -/
inductive PromiseMethod where
  | andThen
  | onRejected
  deriving DecidableEq, Repr

/-- The name of a method of promises. -/
def PromiseMethod.name : PromiseMethod → String
  | .andThen => "then"
  | .onRejected => "catch"

/-- Every method of promises. -/
def PromiseMethod.all : List PromiseMethod :=
  [.andThen, .onRejected]

/-- A built-in function. -/
inductive Builtin where
  | error (kind : ErrorKind)
  | promise
  | promiseResolve
  | promiseReject
  | promiseAll
  /-- One of the two functions that settle a promise made by its constructor. -/
  | resolver (target : Ref .promise) (rejects : Bool)
  | object
  | objectKeys
  | objectValues
  | objectEntries
  | array
  | arrayIsArray
  | string
  | number
  | boolean
  | math (function : MathFunction)
  | jsonStringify
  | jsonParse
  | arrayMethod (receiver : Ref .array) (method : ArrayMethod)
  | stringMethod (receiver : String) (method : StringMethod)
  | numberMethod (receiver : Float) (method : NumberMethod)
  | promiseMethod (receiver : Ref .promise) (method : PromiseMethod)
  deriving DecidableEq

namespace Builtin

/-- The name of a built-in function; the functions that settle a promise have none. -/
def name : Builtin → String
  | .error kind => kind.name
  | .promise => "Promise"
  | .promiseResolve => "resolve"
  | .promiseReject => "reject"
  | .promiseAll => "all"
  | .resolver _ _ => ""
  | .object => "Object"
  | .objectKeys => "keys"
  | .objectValues => "values"
  | .objectEntries => "entries"
  | .array => "Array"
  | .arrayIsArray => "isArray"
  | .string => "String"
  | .number => "Number"
  | .boolean => "Boolean"
  | .math function => function.name
  | .jsonStringify => "stringify"
  | .jsonParse => "parse"
  | .arrayMethod _ method => method.name
  | .stringMethod _ method => method.name
  | .numberMethod _ method => method.name
  | .promiseMethod _ method => method.name

/-- Whether `new` may stand before a built-in function. -/
def isConstructor : Builtin → Bool
  | .error _ | .promise | .string | .number | .boolean => true
  | _ => false

/-- The function that a built-in function holds as a property. -/
def member? : Builtin → String → Option Builtin
  | .promise, "resolve" => some .promiseResolve
  | .promise, "reject" => some .promiseReject
  | .promise, "all" => some .promiseAll
  | .object, "keys" => some .objectKeys
  | .object, "values" => some .objectValues
  | .object, "entries" => some .objectEntries
  | .array, "isArray" => some .arrayIsArray
  | _, _ => none

end Builtin

end Doctest.Script
