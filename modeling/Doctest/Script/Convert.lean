import Doctest.Number.Reading
import Doctest.Script.Inspect

/-!
# Conversions

The text and the number of a value. The text of an array is made of the texts of its items, so an
array that contains itself has none.
-/

namespace Doctest.Script

/-- The text of an error. -/
def ErrorObject.text (error : ErrorObject) : String :=
  if error.message.isEmpty then error.name else error.name ++ ": " ++ error.message

/-- The text of a value that is no array. -/
def Heap.plainText (heap : Heap) : Value → String
  | .undefined => "undefined"
  | .null => "null"
  | .bool b => toString b
  | .number x => Number.text x
  | .string s => s
  | .array _ => ""
  | .object _ => "[object Object]"
  | .error ref => (heap.get ref).text
  | .callable ref => String.ofList (heap.get ref).text
  | .promise _ => "[object Promise]"

/-- The text of a value in which arrays are nested at most so many levels deep. -/
def textWithin (heap : Heap) : Nat → Value → Option String
  | 0, .array _ => none
  | levels + 1, .array ref => do
    let texts ← (heap.get ref).toList.mapM fun item =>
      if item.isNullish then some "" else textWithin heap levels item
    return ",".intercalate texts
  | _, value => some (heap.plainText value)

/-- The text of a value; none if it has no end. No array is nested more deeply than there are
arrays. -/
def Heap.text? (heap : Heap) (value : Value) : Option String :=
  textWithin heap (heap.count .array) value

/-- What is said about a value that was raised. -/
def Heap.description (heap : Heap) : Value → String
  | .error ref => (heap.get ref).text
  | value => "Uncaught " ++ heap.inspect value

/-- The number of a value that is no reference; the others have none. -/
def Value.primitiveNumber : Value → Float
  | .null => 0.0
  | .bool b => if b then 1.0 else 0.0
  | .number x => x
  | .string s => Number.ofText s.toList
  | _ => 0.0 / 0.0

/-- The number of a value; an array has the one of its text. -/
def Heap.number? (heap : Heap) : Value → Option Float
  | .array ref => (heap.text? (.array ref)).map fun s => Number.ofText s.toList
  | value => some value.primitiveNumber

end Doctest.Script
