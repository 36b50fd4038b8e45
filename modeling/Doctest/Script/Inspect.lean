import Doctest.Number.Layout
import Doctest.Script.Heap
import Doctest.Text.Search

/-!
# Showing values

Every value has a text on one line for people to read. A container that stands inside itself is
marked instead of being shown again.
-/

namespace Doctest.Script

/-- A cell of any kind. -/
structure Place where
  kind : CellKind
  index : Nat
  deriving DecidableEq, Repr

/-- The cell that a reference refers to. -/
def Ref.place {kind : CellKind} (ref : Ref kind) : Place :=
  ⟨kind, ref.index⟩

/-- The number of cells that other values stand in. -/
def Heap.containers (heap : Heap) : Nat :=
  heap.count .array + heap.count .object + heap.count .error + heap.count .promise

/-- The quote around a text: the first of three that the text lacks. -/
def quoteMark (s : List Char) : Char :=
  if '\x27' ∉ s then '\x27'
  else if '\x22' ∉ s then '\x22'
  else if '\x60' ∉ s then '\x60'
  else '\x27'

/-- A character between quotes. -/
def quotedChar (mark c : Char) : List Char :=
  if c = '\n' then ['\\', 'n']
  else if c = '\t' then ['\\', 't']
  else if c = '\r' then ['\\', 'r']
  else if c = '\\' then ['\\', '\\']
  else if c = mark then ['\\', c]
  else [c]

/-- A text between quotes. -/
def quoted (s : List Char) : List Char :=
  let mark := quoteMark s
  mark :: s.flatMap (quotedChar mark) ++ [mark]

/-- Whether a character may begin a key that is shown without quotes. -/
def isKeyStart (c : Char) : Bool :=
  c.isAlpha || c = '_' || c = '$'

/-- Whether a key is shown without quotes. -/
def isPlainKey : List Char → Bool
  | [] => false
  | c :: s => isKeyStart c && s.all fun d => isKeyStart d || d.isDigit

/-- The text of a key. -/
def keyText (key : String) : List Char :=
  if isPlainKey key.toList then key.toList else quoted key.toList

/-- The text of a number; unlike elsewhere, the negative zero has a sign. -/
def numberText (x : Float) : List Char :=
  if x == 0.0 && Number.isNegative x then ['-', '0'] else (Number.text x).toList

/-- The text of something to call. -/
def Callable.text (callable : Callable) : List Char :=
  if callable.name.isEmpty then "[Function (anonymous)]".toList
  else "[Function: ".toList ++ callable.name.toList ++ [']']

/-- Texts between brackets, with blanks around them unless there are none. -/
def enclosed (first last : Char) (items : List (List Char)) : List Char :=
  if items.isEmpty then [first, last]
  else first :: ' ' :: (items.intersperse [',', ' ']).flatten ++ [' ', last]

/-- Keys with their values between braces. -/
def shownProperties (shown : Value → List Char) (properties : Dict Value) : List Char :=
  enclosed '\x7b' '\x7d'
    (properties.entries.map fun (key, value) => keyText key ++ [':', ' '] ++ shown value)

/-- The text of a value that stands within the containers `above`, nested at most so many levels
deep. -/
def inspectWithin (heap : Heap) : Nat → List Place → Value → List Char
  | 0, _, _ => []
  | levels + 1, above, value =>
    let circular := "[Circular]".toList
    match value with
    | .undefined => "undefined".toList
    | .null => "null".toList
    | .bool b => (toString b).toList
    | .number x => numberText x
    | .string s => quoted s.toList
    | .array ref =>
      if ref.place ∈ above then circular
      else
        enclosed '[' ']'
          ((heap.get ref).toList.map (inspectWithin heap levels (ref.place :: above)))
    | .object ref =>
      if ref.place ∈ above then circular
      else shownProperties (inspectWithin heap levels (ref.place :: above)) (heap.get ref)
    | .error ref =>
      if ref.place ∈ above then circular
      else
        let error := heap.get ref
        let message := if error.message.isEmpty then [] else ": ".toList ++ error.message.toList
        let properties :=
          if error.properties.isEmpty then []
          else
            ' ' :: shownProperties (inspectWithin heap levels (ref.place :: above))
              error.properties
        '[' :: error.name.toList ++ message ++ [']'] ++ properties
    | .callable ref => (heap.get ref).text
    | .promise ref =>
      if ref.place ∈ above then circular
      else
        let shown := inspectWithin heap levels (ref.place :: above)
        let state :=
          match heap.get ref with
          | .pending _ => "<pending>".toList
          | .fulfilled value => shown value
          | .rejected reason => "<rejected> ".toList ++ shown reason
        "Promise \x7b ".toList ++ state ++ [' ', '\x7d']

/-- The text of a value. No value is nested more deeply than there are containers. -/
def Heap.inspect (heap : Heap) (value : Value) : String :=
  String.ofList (inspectWithin heap (heap.containers + 1) [] value)

end Doctest.Script
