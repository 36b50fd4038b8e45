import Doctest.Json.Read
import Doctest.Script.Eval
import Doctest.Script.Inspect

/-!
# JSON texts of values

Values to JSON and back. What JSON has no form for is left out of objects and is `null` in arrays.
-/

namespace Doctest.Script

/-- Why a value has no JSON form. -/
inductive JsonFault where
  /-- An array or object stands inside itself. -/
  | circular
  /-- An error stands inside itself, by way of errors alone. -/
  | endless
  deriving DecidableEq, Repr

/-- The members of an object, of which those without a JSON form are left out. -/
def jsonMembers (form : Value → Except JsonFault (Option Json)) :
    List (String × Value) → Except JsonFault (List (String × Json))
  | [] => .ok []
  | (key, value) :: rest => do
    let json? ← form value
    let members ← jsonMembers form rest
    match json? with
    | some json => return (key, json) :: members
    | none => return members

/-- The JSON form of a value that stands within the arrays and objects `above`, nested at most so
many levels deep. Of an error only the extra properties are shown. -/
def jsonWithin (heap : Heap) : Nat → List Place → Value → Except JsonFault (Option Json)
  | 0, _, _ => .error .endless
  | levels + 1, above, value =>
    match value with
    | .undefined | .callable _ => .ok none
    | .null => .ok (some .null)
    | .bool b => .ok (some (.bool b))
    | .number x => .ok (some (.number x))
    | .string s => .ok (some (.string s))
    | .array ref =>
      if ref.place ∈ above then .error .circular
      else do
        let items ← (heap.get ref).toList.mapM (jsonWithin heap levels (ref.place :: above))
        return some (.array (items.map (·.getD .null)))
    | .object ref =>
      if ref.place ∈ above then .error .circular
      else do
        return some (.object
          (← jsonMembers (jsonWithin heap levels (ref.place :: above)) (heap.get ref).entries))
    | .error ref => do
      return some (.object
        (← jsonMembers (jsonWithin heap levels above) (heap.get ref).properties.entries))
    | .promise _ => .ok (some (.object []))

/-- The JSON form of a value. Between two containers that are not errors there are no more levels
than there are errors. -/
def Heap.json (heap : Heap) (value : Value) : Except JsonFault (Option Json) :=
  jsonWithin heap
    ((heap.count .array + heap.count .object + 1) * (heap.count .error + 1) + 1) [] value

mutual

/-- The value that a JSON text stands for. Of the members with one key the last counts. -/
def ofJson : Json → Eval Value
  | .null => return .null
  | .bool b => return .bool b
  | .number x => return .number x
  | .string s => return .string s
  | .array items => do
    Eval.newArray (← ofJsonItems items).toArray
  | .object members => do
    Eval.newObject (Dict.ofList (← ofJsonMembers members))

/-- The values of the items of an array. -/
def ofJsonItems : List Json → Eval (List Value)
  | [] => return []
  | item :: rest => do
    let value ← ofJson item
    return value :: (← ofJsonItems rest)

/-- The keys and values of the members of an object. -/
def ofJsonMembers : List (String × Json) → Eval (List (String × Value))
  | [] => return []
  | (key, item) :: rest => do
    let value ← ofJson item
    return (key, value) :: (← ofJsonMembers rest)

end

end Doctest.Script
