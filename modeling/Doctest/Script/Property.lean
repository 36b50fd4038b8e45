import Doctest.Script.Convert
import Doctest.Script.Eval

/-!
# Properties

How properties are read and written. Arrays have their items under their indices, and strings
their characters. Methods are made anew each time they are read.
-/

namespace Doctest.Script

/-- The greatest length of an array. -/
def greatestLength : Nat :=
  Nat.pow 2 32 - 1

/-- The index that a key is: decimal digits without a leading zero, within sixty-four bits. -/
def indexOfKey? (key : String) : Option Nat :=
  let digits := key.toList
  if digits.isEmpty || !digits.all Char.isDigit || (1 < digits.length && digits.head? = some '0')
  then none
  else Number.ofDigitsBelow? 10 (Nat.pow 2 64) digits

/-- The length that a number is for an array. -/
def lengthOfNumber? (x : Float) : Option Nat :=
  if Number.isWhole x then
    match Number.truncated? x with
    | some (.ofNat n) => if n ≤ greatestLength then some n else none
    | _ => none
  else none

/-- An array with a length: cut off, or filled up with `undefined`. -/
def resized (items : Array Value) (length : Nat) : Array Value :=
  if length < items.size then items.take length
  else items ++ Array.replicate (length - items.size) .undefined

/-- The number of a count. -/
def numberOfNat (n : Nat) : Value :=
  .number (Float.ofNat n)

namespace Eval

/-- The text of a value. -/
def text (value : Value) : Eval String :=
  ofHeap? (·.text? value)

/-- The number of a value. -/
def number (value : Value) : Eval Float :=
  ofHeap? (·.number? value)

/-- The text that shows a value. -/
def inspect (value : Value) : Eval String :=
  ofHeap (·.inspect value)

/-- A new function, if there is one of a name. -/
def method? {α : Type} (all : List α) (name : α → String) (bind : α → Builtin) (key : String) :
    Eval Value :=
  match all.find? (name · = key) with
  | some method => newCallable (.builtin (bind method))
  | none => return .undefined

/-- The property of a value with a key. Only `undefined` and `null` have no properties at all. -/
def property (target : Value) (key : String) : Eval Value := do
  match target with
  | .undefined | .null => fail (.readOfNothing (← text target) key)
  | .bool _ => return .undefined
  | .number x => method? NumberMethod.all NumberMethod.name (.numberMethod x) key
  | .string s =>
    if key = "length" then return numberOfNat s.length
    else
      match indexOfKey? key with
      | some index =>
        return (s.toList[index]?.map fun c => Value.string (String.singleton c)).getD .undefined
      | none => method? StringMethod.all StringMethod.name (.stringMethod s) key
  | .array ref =>
    if key = "length" then return numberOfNat (← read ref).size
    else
      match indexOfKey? key with
      | some index => return (← read ref).getD index .undefined
      | none => method? ArrayMethod.all ArrayMethod.name (.arrayMethod ref) key
  | .object ref => return ((← read ref).get? key).getD .undefined
  | .error ref =>
    let error ← read ref
    if key = "name" then return .string error.name
    else if key = "message" then return .string error.message
    else return (error.properties.get? key).getD .undefined
  | .promise ref => method? PromiseMethod.all PromiseMethod.name (.promiseMethod ref) key
  | .callable ref =>
    let callable ← read ref
    if key = "name" then return .string callable.name
    else
      match callable with
      | .closure made =>
        return if key = "length" then numberOfNat made.params.length else .undefined
      | .builtin function =>
        match function.member? key with
        | some member => newCallable (.builtin member)
        | none => return .undefined

/-- Gives an array a length. -/
def setLength (ref : Ref .array) (length : Float) : Eval Unit :=
  match lengthOfNumber? length with
  | some length => change ref (resized · length)
  | none => fail .arrayLength

/-- Gives an array an item at an index; items up to it are filled in. -/
def setItem (ref : Ref .array) (index : Nat) (value : Value) : Eval Unit := do
  if index < (← read ref).size then change ref (·.setIfInBounds index value)
  else if index < greatestLength then change ref fun items => (resized items index).push value
  else fail .arrayLength

/-- Gives a value a property. Values that hold no properties ignore it, and so does an array if
the key is neither an index nor its length. -/
def setProperty (target : Value) (key : String) (value : Value) : Eval Unit := do
  match target with
  | .undefined | .null => fail (.writeOfNothing (← text target) key)
  | .object ref => change ref (·.insert key value)
  | .array ref =>
    if key = "length" then setLength ref (← number value)
    else
      match indexOfKey? key with
      | some index => setItem ref index value
      | none => return
  | .error ref =>
    if key = "name" then
      let name ← text value
      change ref ({ · with name })
    else if key = "message" then
      let message ← text value
      change ref ({ · with message })
    else change ref fun error => { error with properties := error.properties.insert key value }
  | _ => return

end Eval

end Doctest.Script
