import Doctest.Script.JsonText
import Doctest.Script.Property

/-!
# The functions of `JSON`
-/

namespace Doctest.Script.Library

/-- The indent that an argument asks for: so many blanks, or the text itself, of which no more
than ten characters count. -/
def indentOf : Value → String
  | .number x =>
    if x ≥ 1.0 then
      let count :=
        match Number.truncated? x with
        | some (.ofNat n) => min n 10
        | _ => 10
      String.ofList (List.replicate count ' ')
    else ""
  | .string s => String.ofList (s.toList.take 10)
  | _ => ""

/-- The JSON text of a value; `undefined` if it has no JSON form. -/
def stringify (value indent : Value) : Eval Value := do
  match ← Eval.ofHeap (·.json value) with
  | .ok (some json) => return .string (json.text (indentOf indent))
  | .ok none => return .undefined
  | .error .circular => Eval.fail .circularJson
  | .error .endless => throw .exhausted

/-- The value that a JSON text stands for. -/
def parseJson (value : Value) : Eval Value := do
  let text ← Eval.text value
  match Json.read? text with
  | some json => ofJson json
  | none => Eval.fail (.badJson text)

end Doctest.Script.Library
