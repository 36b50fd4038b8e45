import Doctest.Json.Basic

/-!
# Reading JSON

The grammar is that of JSON, with at most 127 arrays and objects inside each other. Each reader
takes a value off the front of a text and returns what is left of it.
-/

namespace Doctest.Json

/-- Blanks between the parts of a JSON text. -/
def isSpace (c : Char) : Bool :=
  c = ' ' || c = '\n' || c = '\t' || c = '\r'

/-- A text without its leading blanks. -/
def skipSpaces (s : List Char) : List Char :=
  s.dropWhile isSpace

/-- The value of a hexadecimal digit. -/
def hexValue? (c : Char) : Option Nat :=
  if '0' ≤ c ∧ c ≤ '9' then some (c.toNat - 0x30)
  else if 'a' ≤ c ∧ c ≤ 'f' then some (c.toNat - 0x61 + 10)
  else if 'A' ≤ c ∧ c ≤ 'F' then some (c.toNat - 0x41 + 10)
  else none

/-- Four hexadecimal digits. -/
def readUnit? : List Char → Option (Nat × List Char)
  | a :: b :: c :: d :: s =>
    match hexValue? a, hexValue? b, hexValue? c, hexValue? d with
    | some a, some b, some c, some d => some (((a * 16 + b) * 16 + c) * 16 + d, s)
    | _, _, _, _ => none
  | _ => none

/-- The character of an escape that stands for one character. -/
def simpleEscape? (c : Char) : Option Char :=
  if c = '\x22' ∨ c = '\\' ∨ c = '/' then some c
  else if c = 'b' then some '\x08'
  else if c = 'f' then some '\x0c'
  else if c = 'n' then some '\n'
  else if c = 'r' then some '\r'
  else if c = 't' then some '\t'
  else none

/-- The rest of an escape after `\u`: one unit, or two that make a surrogate pair. -/
def readEscapedUnit? (s : List Char) : Option (Char × List Char) :=
  match readUnit? s with
  | none => none
  | some (high, s) =>
    if 0xDC00 ≤ high ∧ high ≤ 0xDFFF then none
    else if 0xD800 ≤ high ∧ high ≤ 0xDBFF then
      match s with
      | '\\' :: 'u' :: s =>
        match readUnit? s with
        | some (low, s) =>
          if 0xDC00 ≤ low ∧ low ≤ 0xDFFF then
            some (Char.ofNat (0x10000 + (high - 0xD800) * 0x400 + (low - 0xDC00)), s)
          else none
        | none => none
      | _ => none
    else some (Char.ofNat high, s)

/-- The characters of a string up to its closing quote, of which there are fewer than so many. -/
def readChars? : Nat → List Char → Option (List Char × List Char)
  | 0, _ => none
  | _ + 1, [] => none
  | fuel + 1, c :: s =>
    if c = '\x22' then some ([], s)
    else if c = '\\' then
      match s with
      | [] => none
      | 'u' :: s =>
        match readEscapedUnit? s with
        | some (c, s) => (readChars? fuel s).map fun (cs, s) => (c :: cs, s)
        | none => none
      | e :: s =>
        match simpleEscape? e with
        | some c => (readChars? fuel s).map fun (cs, s) => (c :: cs, s)
        | none => none
    else if c.toNat < 0x20 then none
    else (readChars? fuel s).map fun (cs, s) => (c :: cs, s)

/-- A string after its opening quote, with fewer than so many characters. -/
def readString? (fuel : Nat) (s : List Char) : Option (String × List Char) :=
  (readChars? fuel s).map fun (cs, s) => (String.ofList cs, s)

/-- The greatest significand that is kept while the digits of a number are read. -/
def greatestSignificand : Nat :=
  Nat.pow 2 64 - 1

/-- Appends digits to a significand for as long as it stays in bounds; the count of the digits
appended comes with it. -/
def appendDigits (significand : Nat) : List Char → Nat × Nat
  | [] => (significand, 0)
  | c :: digits =>
    let next := significand * 10 + (c.toNat - 0x30)
    if greatestSignificand < next then (significand, 0)
    else
      let (significand, count) := appendDigits next digits
      (significand, count + 1)

/-- `x / 10 ^ exponent`, by steps of `10 ^ 308`. -/
def divideByPower : Nat → Float → Nat → Float
  | 0, x, _ => x
  | fuel + 1, x, exponent =>
    if exponent ≤ 308 then x / Float.ofScientific 1 false exponent
    else if x == 0.0 then x
    else divideByPower fuel (x / Float.ofScientific 1 false 308) (exponent - 308)

/-- `significand · 10 ^ exponent` with one rounding for the significand and one for the power;
nothing beyond the range of doubles. -/
def scaled? (significand : Nat) (exponent : Int) : Option Float :=
  let x := Float.ofNat significand
  match exponent with
  | .ofNat k =>
    if k ≤ 308 then
      let y := x * Float.ofScientific 1 false k
      if y.isInf then none else some y
    else if significand = 0 then some x
    else none
  | .negSucc k => some (divideByPower 5 x (k + 1))

/-- The bound that an exponent need not be known beyond: there all numbers but zero are out of
range. -/
def greatestExponent : Nat :=
  Nat.pow 2 31 - 1

/-- The value of the digits of an exponent; once it is out of bounds, no more digits are added. -/
def exponentValue (digits : List Char) : Nat :=
  digits.foldl (fun n c => if greatestExponent < n then n else n * 10 + (c.toNat - 0x30)) 0

/-- The exponent part of a number, which may be absent. -/
def readExponent? : List Char → Option (Int × List Char)
  | c :: s =>
    if c = 'e' ∨ c = 'E' then
      let (negative, s) : Bool × List Char :=
        match s with
        | '+' :: s => (false, s)
        | '-' :: s => (true, s)
        | s => (false, s)
      match s.takeWhile Char.isDigit with
      | [] => none
      | digits =>
        let size : Int := exponentValue digits
        some (if negative then -size else size, s.dropWhile Char.isDigit)
    else some (0, c :: s)
  | [] => some (0, [])

/-- The fraction of a number, which may be absent. -/
def readFraction? : List Char → Option (List Char × List Char)
  | '.' :: s =>
    match s.takeWhile Char.isDigit with
    | [] => none
    | digits => some (digits, s.dropWhile Char.isDigit)
  | s => some ([], s)

/-- A number without its sign. A zero is not followed by further digits. -/
def readSize? (s : List Char) : Option (Float × List Char) := do
  let whole := s.takeWhile Char.isDigit
  match whole with
  | [] => none
  | '0' :: _ :: _ => none
  | _ =>
    let (fraction, s) ← readFraction? (s.dropWhile Char.isDigit)
    let (exponent, s) ← readExponent? s
    let (significand, kept) := appendDigits 0 whole
    let dropped := whole.length - kept
    let (significand, places) := appendDigits significand fraction
    let x ← scaled? significand (exponent + dropped - places)
    pure (x, s)

/-- A number. -/
def readNumber? : List Char → Option (Float × List Char)
  | '-' :: s => (readSize? s).map fun (x, s) => (-x, s)
  | s => readSize? s

/-- How many arrays and objects may stand inside each other. -/
def greatestDepth : Nat :=
  127

mutual

/-- A value, with `depth` further levels allowed inside. -/
def readValue? : Nat → Nat → List Char → Option (Json × List Char)
  | 0, _, _ => none
  | fuel + 1, depth, s =>
    match skipSpaces s with
    | 'n' :: 'u' :: 'l' :: 'l' :: s => some (.null, s)
    | 't' :: 'r' :: 'u' :: 'e' :: s => some (.bool true, s)
    | 'f' :: 'a' :: 'l' :: 's' :: 'e' :: s => some (.bool false, s)
    | '\x22' :: s => (readString? (fuel + 1) s).map fun (text, s) => (.string text, s)
    | '[' :: s =>
      match depth with
      | 0 => none
      | depth + 1 =>
        match skipSpaces s with
        | ']' :: s => some (.array [], s)
        | s => (readItems? fuel depth s).map fun (items, s) => (.array items, s)
    | '\x7b' :: s =>
      match depth with
      | 0 => none
      | depth + 1 =>
        match skipSpaces s with
        | '\x7d' :: s => some (.object [], s)
        | s => (readMembers? fuel depth s).map fun (members, s) => (.object members, s)
    | s => (readNumber? s).map fun (x, s) => (.number x, s)

/-- The items of an array up to its closing bracket, at least one. -/
def readItems? : Nat → Nat → List Char → Option (List Json × List Char)
  | 0, _, _ => none
  | fuel + 1, depth, s => do
    let (item, s) ← readValue? fuel depth s
    match skipSpaces s with
    | ']' :: s => pure ([item], s)
    | ',' :: s =>
      let (items, s) ← readItems? fuel depth s
      pure (item :: items, s)
    | _ => none

/-- The members of an object up to its closing brace, at least one. -/
def readMembers? : Nat → Nat → List Char → Option (List (String × Json) × List Char)
  | 0, _, _ => none
  | fuel + 1, depth, s =>
    match skipSpaces s with
    | '\x22' :: s => do
      let (key, s) ← readString? (fuel + 1) s
      match skipSpaces s with
      | ':' :: s =>
        let (value, s) ← readValue? fuel depth s
        match skipSpaces s with
        | '\x7d' :: s => pure ([(key, value)], s)
        | ',' :: s =>
          let (members, s) ← readMembers? fuel depth s
          pure ((key, value) :: members, s)
        | _ => none
      | _ => none
    | _ => none

end

/-- The data of a JSON text: one value with blanks around it. -/
def read? (text : String) : Option Json :=
  let s := text.toList
  match readValue? (2 * s.length + 2) greatestDepth s with
  | some (json, rest) => if (skipSpaces rest).isEmpty then some json else none
  | none => none

end Doctest.Json
