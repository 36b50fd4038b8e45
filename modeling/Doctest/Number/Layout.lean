import Doctest.Number.Binary
import Doctest.Number.Decimal

/-!
# Number text

How the digits of a number are laid out. What differs from one output to another is held in a
`Layout`.
-/

namespace Doctest.Number

/-- The decisions of one kind of number text. -/
structure Layout where
  /-- The way a tie between two shortest decimals goes. -/
  tie : Tie
  /-- The positions of the point, counted from the first digit, that are written positionally;
  the others are written with an exponent. -/
  positional : Int → Bool
  /-- What follows a whole number that is written positionally. -/
  wholeSuffix : String
  /-- What stands between digits and an exponent that is not negative. -/
  exponentSign : String

/-- Digits with a point after the first `point` of them, zeros filled in as needed. -/
def positionalText (wholeSuffix : String) (digits : List Char) (point : Int) : String :=
  if point ≤ 0 then
    "0." ++ String.ofList (List.replicate (-point).toNat '0' ++ digits)
  else if digits.length ≤ point.toNat then
    String.ofList (digits ++ List.replicate (point.toNat - digits.length) '0') ++ wholeSuffix
  else
    String.ofList (digits.take point.toNat) ++ "." ++ String.ofList (digits.drop point.toNat)

/-- Digits with a point after the first one, then the exponent of ten. -/
def scientificText (exponentSign : String) (digits : List Char) (point : Int) : String :=
  let mantissa :=
    match digits with
    | [] => "0"
    | [d] => String.ofList [d]
    | d :: rest => String.ofList (d :: '.' :: rest)
  let exponent := point - 1
  let power :=
    if exponent < 0 then "e-" ++ toString exponent.natAbs
    else exponentSign ++ toString exponent.natAbs
  mantissa ++ power

/-- The text of `mantissa · 2 ^ exponent`, without a sign. -/
def Layout.sizeText (layout : Layout) (mantissa : Nat) (exponent : Int) : String :=
  let decimal := shortest layout.tie mantissa exponent
  let digits := Nat.toDigits 10 decimal.digits
  let point := digits.length + decimal.exponent
  if layout.positional point then positionalText layout.wholeSuffix digits point
  else scientificText layout.exponentSign digits point

/-- The text of a finite number other than zero; nothing for the others. -/
def Layout.text (layout : Layout) (x : Float) : String :=
  match Binary.ofFloat x with
  | .finite negative mantissa exponent =>
    (if negative then "-" else "") ++ layout.sizeText mantissa exponent
  | _ => ""

/-- Numbers of the script language: positional from `0.000001` up to twenty-one digits before the
point, and a tie between two shortest decimals goes up. -/
def Layout.script : Layout :=
  ⟨.up, fun point => -6 < point && point ≤ 21, "", "e+"⟩

/-- Numbers of JSON that are not whole: positional from `0.00001` up to sixteen digits before the
point, always with a decimal place, and a tie goes to the even digit. -/
def Layout.json : Layout :=
  ⟨.even, fun point => -5 < point && point ≤ 16, ".0", "e+"⟩

/-- Numbers as object keys: never an exponent. -/
def Layout.key : Layout :=
  ⟨.up, fun _ => true, "", "e+"⟩

/-- The text of a number in the script language. Both zeros are `0`. -/
def text (x : Float) : String :=
  match Binary.ofFloat x with
  | .nan => "NaN"
  | .infinite negative => if negative then "-Infinity" else "Infinity"
  | .finite negative mantissa exponent =>
    if mantissa = 0 then "0"
    else (if negative then "-" else "") ++ Layout.script.sizeText mantissa exponent

/-- The text of a number as an object key. Whole numbers are cut off at the greatest integer of
sixty-four bits. -/
def keyText (x : Float) : String :=
  match Binary.ofFloat x with
  | .finite negative mantissa exponent =>
    let size := wholePart mantissa exponent
    let sign := if negative then "-" else ""
    if hasNoFraction mantissa exponent ∧ size < Nat.pow 10 21 then
      (if size = 0 then "" else sign) ++ toString (min size (Nat.pow 2 63 - 1))
    else sign ++ Layout.key.sizeText mantissa exponent
  | .infinite negative => if negative then "-inf" else "inf"
  | .nan => "NaN"

/-- The text of a number with a fixed count of decimal places, from its exact value. The sign
stays, also of a number that rounds to zero. Only finite numbers have one. -/
def fixedText? (places : Nat) (x : Float) : Option String :=
  match Binary.ofFloat x with
  | .finite negative mantissa exponent =>
    let rounded := (toPlaces places mantissa exponent).digits
    let digits := Nat.toDigits 10 rounded
    let padded := List.replicate (places + 1 - digits.length) '0' ++ digits
    let whole := padded.take (padded.length - places)
    let sign := if negative then "-" else ""
    let fraction :=
      if places = 0 then "" else "." ++ String.ofList (padded.drop (padded.length - places))
    some (sign ++ String.ofList whole ++ fraction)
  | _ => none

end Doctest.Number
