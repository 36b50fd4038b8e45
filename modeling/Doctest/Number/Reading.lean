import Doctest.Number.Numeral
import Doctest.Text.Blank

/-!
# Numbers in texts

The number that a whole text stands for when a script converts it.
-/

namespace Doctest.Number

/-- A sign at the front of a text, whether it is a minus, and the rest. -/
def signed : List Char → Bool × List Char
  | '-' :: s => (true, s)
  | '+' :: s => (false, s)
  | s => (false, s)

/-- A number with a sign. -/
def withSign (negative : Bool) (x : Float) : Float :=
  if negative then -x else x

/-- The number of a decimal text: a sign, digits with or without a point, of which there is at
least one, and an exponent; only the digits have to be there. -/
def ofDecimalText? (s : List Char) : Option Float :=
  let (negative, body) := signed s
  let whole := body.takeWhile Char.isDigit
  let (fraction, rest) :=
    match body.drop whole.length with
    | '.' :: s => (s.takeWhile Char.isDigit, s.dropWhile Char.isDigit)
    | s => ([], s)
  if whole.isEmpty && fraction.isEmpty then none
  else if rest.isEmpty then some (withSign negative (Numeral.value ⟨whole, fraction, 0⟩))
  else
    match exponent? rest with
    | some (exponent, count) =>
      if count = rest.length then
        some (withSign negative (Numeral.value ⟨whole, fraction, exponent⟩))
      else none
    | none => none

/-- The number of a hexadecimal text without its mark: a sign and digits, within the integers of
sixty-four bits. -/
def ofHexText? (s : List Char) : Option Float :=
  let (negative, digits) := signed s
  if digits.isEmpty || !digits.all isHexDigit then none
  else
    (ofDigitsBelow? 16 (if negative then Nat.pow 2 63 + 1 else Nat.pow 2 63) digits).map fun size =>
      withSign (negative && size != 0) (Float.ofNat size)

/-- The number of a text without blanks at its ends, if it has one. -/
def ofTrimmed? : List Char → Option Float
  | [] => some 0.0
  | '0' :: 'x' :: s | '0' :: 'X' :: s => ofHexText? s
  | s =>
    let (negative, size) := signed s
    if size = "Infinity".toList then some (withSign negative (1.0 / 0.0)) else ofDecimalText? s

/-- The number of a text; not a number if the text stands for none. -/
def ofText (s : List Char) : Float :=
  (ofTrimmed? (Text.trim s)).getD (0.0 / 0.0)

end Doctest.Number
