import Doctest.Script.Library.Array
import Doctest.Text.Case

/-!
# Strings

The methods of strings. Positions count characters.
-/

namespace Doctest.Script.Library

/-- The length beyond which no repetition goes. -/
def greatestTextLength : Float :=
  536870888.0

/-- A new array of texts. -/
def newTexts (texts : List (List Char)) : Eval Value :=
  Eval.newArray (texts.map fun s => Value.string (String.ofList s)).toArray

/-- The pieces of a text. Without a separator there is one, and an empty one parts all
characters. -/
def split (separator : Option (List Char)) (s : List Char) : List (List Char) :=
  match separator with
  | none => [s]
  | some [] => s.map ([·])
  | some separator => Text.splitOn separator s

/-- The character at a number, if it is one that is not negative. -/
def charAt (x : Float) (s : List Char) : List Char :=
  match Number.truncated? x with
  | some index => if x ≥ 0.0 then s[index.toNat]?.toList else []
  | none => []

/-- A text so many times in a row. -/
def repeated (count : Nat) (s : List Char) : List Char :=
  if s.isEmpty then [] else (List.replicate count s).flatten

/-- Repeats a text as often as a number says. -/
def repeatText (x : Float) (s : List Char) : Eval (List Char) := do
  let count := if x.isNaN then 0.0 else x
  match Number.truncated? count with
  | none => Eval.fail (.repeatCount (Number.text count))
  | some times =>
    if count < 0.0 then Eval.fail (.repeatCount (Number.text count))
    else if Float.ofNat s.length * Number.truncate count > greatestTextLength then
      Eval.fail .stringLength
    else return repeated times.toNat s

/-- Calls a method of a string. -/
def callStringMethod (receiver : String) (method : StringMethod) (args : List Value) :
    Eval Value := do
  let s := receiver.toList
  let text (s : List Char) : Value := .string (String.ofList s)
  let first := args.getD 0 .undefined
  let needle : Eval (List Char) := do
    return (← Eval.text first).toList
  let count : Eval Float :=
    match args[0]? with
    | some value => Eval.number value
    | none => return 0.0
  match method with
  | .toUpperCase => return text (Text.upper s)
  | .toLowerCase => return text (Text.lower s)
  | .trim => return text (Text.trim s)
  | .trimStart => return text (Text.trimStart s)
  | .trimEnd => return text (Text.trimEnd s)
  | .split =>
    let separator ← if first = .undefined then pure none else some <$> needle
    newTexts (split separator s)
  | .includes => return .bool (Text.contains (← needle) s)
  | .startsWith => return .bool ((← needle).isPrefixOf s)
  | .endsWith => return .bool ((← needle).isSuffixOf s)
  | .slice =>
    let start ← position args[0]? s.length 0
    let stop ← position args[1]? s.length s.length
    return text (Text.slice start stop s)
  | .indexOf =>
    match Text.indexOf? (← needle) s with
    | some index => return numberOfNat index
    | none => return .number (-1.0)
  | .charAt => return text (charAt (← count) s)
  | .repeat => return text (← repeatText (← count) s)

end Doctest.Script.Library
