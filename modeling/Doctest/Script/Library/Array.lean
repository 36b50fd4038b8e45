import Doctest.Script.Equality
import Doctest.Script.Property

/-!
# Arrays

The methods of arrays. A method that calls a function for the items goes through the items that
the array had at the start, whatever the function does to it.
-/

namespace Doctest.Script.Library

/-- The position that a number is in something with a length; negative numbers count from the
end. -/
def positionOfNumber (x : Float) (length : Nat) : Nat :=
  match Number.Binary.ofFloat x with
  | .nan => 0
  | .infinite negative => if negative then 0 else length
  | .finite negative mantissa exponent =>
    let size := Number.wholePart mantissa exponent
    if negative && size != 0 then length - size else min size length

/-- The position that an argument is, or a default one if it is left out. -/
def position (arg : Option Value) (length default : Nat) : Eval Nat := do
  match arg with
  | none | some .undefined => return default
  | some value => return positionOfNumber (← Eval.number value) length

/-- The text of an item where items are put together. -/
def itemText (item : Value) : Eval String :=
  if item.isNullish then return "" else Eval.text item

/-- A new array of arguments; a single number is its length. -/
def newArrayOf (args : List Value) : Eval Value := do
  match args with
  | [.number length] =>
    match lengthOfNumber? length with
    | some length => Eval.newArray (Array.replicate length .undefined)
    | none => Eval.fail .arrayLength
  | args => Eval.newArray args.toArray

/-- The items that an argument adds to an array: those of an array, or itself. -/
def spread (arg : Value) : Eval (Array Value) := do
  match arg with
  | .array ref => Eval.read ref
  | value => return #[value]

/-- Calls a method of an array. -/
def callArrayMethod (invoke : Invoke) (ref : Ref .array) (method : ArrayMethod)
    (args : List Value) : Eval Value := do
  let first := args.getD 0 .undefined
  let call (item : Value) (index : Nat) : Eval Value :=
    invoke first [item, numberOfNat index, .array ref]
  let holds (entry : Value × Nat) : Eval Bool := do
    return (← call entry.1 entry.2).isTruthy
  let snapshot : Eval (List (Value × Nat)) := do
    return (← Eval.read ref).toList.zipIdx
  match method with
  | .push =>
    Eval.change ref (· ++ args)
    return numberOfNat (← Eval.read ref).size
  | .pop =>
    let last := (← Eval.read ref).back?
    Eval.change ref Array.pop
    return last.getD .undefined
  | .map => Eval.newArray (← (← snapshot).mapM fun entry => call entry.1 entry.2).toArray
  | .filter => Eval.newArray ((← (← snapshot).filterM holds).map Prod.fst).toArray
  | .forEach =>
    (← snapshot).forM fun entry => discard (call entry.1 entry.2)
    return .undefined
  | .find => return ((← (← snapshot).findM? holds).map Prod.fst).getD .undefined
  | .some => return .bool (← (← snapshot).anyM holds)
  | .every => return .bool (← (← snapshot).allM holds)
  | .reduce =>
    let step (total : Value) (entry : Value × Nat) : Eval Value :=
      invoke first [total, entry.1, numberOfNat entry.2, .array ref]
    match args[1]?, ← snapshot with
    | some start, entries => entries.foldlM step start
    | none, entry :: entries => entries.foldlM step entry.1
    | none, [] => Eval.fail .emptyReduce
  | .join =>
    let separator ← if first = .undefined then pure "," else Eval.text first
    return .string (separator.intercalate (← (← Eval.read ref).toList.mapM itemText))
  | .includes =>
    let items := (← Eval.read ref).toList
    let start ← position args[1]? items.length 0
    return .bool ((items.drop start).any (·.sameValueZero first))
  | .indexOf =>
    let items := (← Eval.read ref).toList
    let start ← position args[1]? items.length 0
    match (items.drop start).findIdx? (·.strictEquals first) with
    | some index => return numberOfNat (start + index)
    | none => return .number (-1.0)
  | .slice =>
    let items := (← Eval.read ref).toList
    let start ← position args[0]? items.length 0
    let stop ← position args[1]? items.length items.length
    Eval.newArray (Text.slice start stop items).toArray
  | .concat =>
    let items ← Eval.read ref
    Eval.newArray (← args.foldlM (fun items arg => return items ++ (← spread arg)) items)
  | .reverse =>
    Eval.change ref Array.reverse
    return .array ref

end Doctest.Script.Library
