import Doctest.Number.Binary
import Doctest.Number.Layout

/-!
# JSON

JSON texts as data, and how they are written.
-/

namespace Doctest

/-- A JSON text as data. Members keep the order and the repetitions they were written in. -/
inductive Json where
  | null
  | bool (b : Bool)
  | number (x : Float)
  | string (s : String)
  | array (items : List Json)
  | object (members : List (String × Json))

namespace Json

/-- The greatest magnitude up to which whole numbers are written as integers. -/
def greatestInteger : Nat :=
  Nat.pow 2 53 - 1

/-- The text of a number. Whole numbers that a double holds exactly are written as integers,
and `-0` as `0`; what is not finite is written as `null`. -/
def numberText (x : Float) : String :=
  match Number.Binary.ofFloat x with
  | .finite negative mantissa exponent =>
    let size := Number.wholePart mantissa exponent
    if Number.hasNoFraction mantissa exponent ∧ size ≤ greatestInteger then
      (if negative ∧ size ≠ 0 then "-" else "") ++ toString size
    else Number.Layout.json.text x
  | _ => "null"

/-- A hexadecimal digit in lower case. -/
def hexDigit (n : Nat) : Char :=
  if n < 10 then Char.ofNat (0x30 + n) else Char.ofNat (0x61 + n - 10)

/-- How a character stands between quotes: the quote, the backslash and the control characters
are escaped. -/
def escapeChar (c : Char) : List Char :=
  if c = '\x22' then ['\\', '\x22']
  else if c = '\\' then ['\\', '\\']
  else if c = '\x08' then ['\\', 'b']
  else if c = '\x0c' then ['\\', 'f']
  else if c = '\n' then ['\\', 'n']
  else if c = '\r' then ['\\', 'r']
  else if c = '\t' then ['\\', 't']
  else if c.toNat < 0x20 then
    ['\\', 'u', '0', '0', hexDigit (c.toNat / 16), hexDigit (c.toNat % 16)]
  else [c]

/-- A string between quotes. -/
def quote (s : String) : List Char :=
  '\x22' :: s.toList.flatMap escapeChar ++ ['\x22']

/-- The line break before an item at a depth: none without an indent. -/
def lineBreak (indent : List Char) (depth : Nat) : List Char :=
  if indent.isEmpty then [] else '\n' :: (List.replicate depth indent).flatten

/-- What stands between a key and its value. -/
def colon (indent : List Char) : List Char :=
  if indent.isEmpty then [':'] else [':', ' ']

/-- Items between brackets, each on a line of its own when there is an indent. -/
def bracketed (indent : List Char) (depth : Nat) (first last : Char) :
    List (List Char) → List Char
  | [] => [first, last]
  | items =>
    let placed := items.map (lineBreak indent (depth + 1) ++ ·)
    first :: (placed.intersperse [',']).flatten ++ lineBreak indent depth ++ [last]

mutual

/-- The text of a JSON value that stands at a depth. -/
def write (indent : List Char) (depth : Nat) : Json → List Char
  | .null => "null".toList
  | .bool true => "true".toList
  | .bool false => "false".toList
  | .number x => (numberText x).toList
  | .string s => quote s
  | .array items => bracketed indent depth '[' ']' (writeItems indent (depth + 1) items)
  | .object members =>
    bracketed indent depth '\x7b' '\x7d' (writeMembers indent (depth + 1) members)

/-- The texts of the items of an array. -/
def writeItems (indent : List Char) (depth : Nat) : List Json → List (List Char)
  | [] => []
  | item :: rest => write indent depth item :: writeItems indent depth rest

/-- The texts of the members of an object. -/
def writeMembers (indent : List Char) (depth : Nat) : List (String × Json) → List (List Char)
  | [] => []
  | (key, value) :: rest =>
    (quote key ++ colon indent ++ write indent depth value) :: writeMembers indent depth rest

end

/-- The text without any blanks, or with each level indented if the indent is not empty. -/
def text (indent : String) (json : Json) : String :=
  String.ofList (write indent.toList 0 json)

end Json

end Doctest
