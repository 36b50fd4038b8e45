/-!
# Decimal digits

A decimal is `digits · 10 ^ exponent`. Here are the fewest digits that identify a double, the
rounding to fixed places, and the way back from a decimal to the nearest double.
-/

namespace Doctest.Number

/-- A decimal number without a sign. -/
structure Decimal where
  digits : Nat
  exponent : Int
  deriving DecidableEq, Repr

/-- Which of two equally near neighbours a rounding takes. -/
inductive Tie where
  /-- The greater one. -/
  | up
  /-- The even one. -/
  | even
  deriving DecidableEq, Repr

/-- Whether, of the neighbours `floor` and `floor + 1`, the upper one is taken for a value that
lies `above` past the lower one and `below` before the upper one. -/
def Tie.takesUpper (tie : Tie) (floor above below : Nat) : Bool :=
  if above = below then
    match tie with
    | .up => true
    | .even => floor % 2 = 1
  else below < above

/-- The quotient of two numbers rounded to the nearest whole number. -/
def roundDiv (tie : Tie) (num den : Nat) : Nat :=
  let floor := num / den
  let above := num % den
  if above != 0 && tie.takesUpper floor above (den - above) then floor + 1 else floor

/-- The least `k`, counted from `k` up to `fuel` more, with `den ≤ num · 10 ^ k`. -/
def stepsUpTo (den : Nat) : Nat → Nat → Nat → Nat
  | 0, _, k => k
  | fuel + 1, num, k => if den ≤ num then k else stepsUpTo den fuel (num * 10) (k + 1)

/-- The number of decimal digits before the point of `num / den`, which may be negative: the
quotient lies between `10 ^ (e - 1)` and `10 ^ e`. -/
def pointPosition (num den : Nat) : Int :=
  if den ≤ num then (Nat.toDigits 10 (num / den)).length
  else 1 - (stepsUpTo den 400 num 0 : Int)

/-- A numerator and denominator times a power of ten. -/
def timesPowerOfTen (num den : Nat) : Int → Nat × Nat
  | .ofNat k => (num * Nat.pow 10 k, den)
  | .negSucc k => (num, den * Nat.pow 10 (k + 1))

/-- The numbers that read back as one double: `low`, the double itself and `high` over a common
denominator, and whether the two ends belong to them. -/
structure Neighbourhood where
  low : Nat
  value : Nat
  high : Nat
  den : Nat
  closed : Bool

/-- The neighbourhood of `mantissa · 2 ^ exponent`. It reaches half way to the next double on each
side; below a power of two the next one is only half as far. -/
def Neighbourhood.ofBinary (mantissa : Nat) (exponent : Int) : Neighbourhood :=
  let (scale, den) : Nat × Nat :=
    match exponent with
    | .ofNat k => (Nat.pow 2 k, 4)
    | .negSucc k => (1, 4 * Nat.pow 2 (k + 1))
  let below := if mantissa = Nat.pow 2 52 ∧ exponent ≠ -1074 then 1 else 2
  ⟨(4 * mantissa - below) * scale, 4 * mantissa * scale, (4 * mantissa + 2) * scale, den,
    mantissa % 2 = 0⟩

/-- Whether `num / den` belongs to a neighbourhood. -/
def Neighbourhood.holds (near : Neighbourhood) (num den : Nat) : Bool :=
  let scaled := num * near.den
  if near.closed then near.low * den ≤ scaled && scaled ≤ near.high * den
  else near.low * den < scaled && scaled < near.high * den

/-- The member of a neighbourhood on the grid of multiples of `10 ^ exponent` that is nearest to
its double, if the grid has a member there. -/
def Neighbourhood.onGrid? (near : Neighbourhood) (tie : Tie) (exponent : Int) : Option Decimal :=
  let (num, den) := timesPowerOfTen near.value near.den (-exponent)
  let floor := num / den
  let inside (n : Nat) : Bool :=
    match exponent with
    | .ofNat k => near.holds (n * Nat.pow 10 k) 1
    | .negSucc k => near.holds n (Nat.pow 10 (k + 1))
  match inside floor, inside (floor + 1) with
  | true, true =>
    let above := num % den
    some ⟨if tie.takesUpper floor above (den - above) then floor + 1 else floor, exponent⟩
  | true, false => some ⟨floor, exponent⟩
  | false, true => some ⟨floor + 1, exponent⟩
  | false, false => none

/-- The first grid, from `exponent` down through `fuel` finer ones, with a member in the
neighbourhood. -/
def Neighbourhood.coarsest? (near : Neighbourhood) (tie : Tie) : Nat → Int → Option Decimal
  | 0, _ => none
  | fuel + 1, exponent =>
    match near.onGrid? tie exponent with
    | some found => some found
    | none => near.coarsest? tie fuel (exponent - 1)

/-- The decimal with the fewest digits that reads back as `mantissa · 2 ^ exponent`, and of those
the nearest. The first grid tried has the next power of ten above the value as its only member
near it; seventeen digits always suffice. -/
def shortest (tie : Tie) (mantissa : Nat) (exponent : Int) : Decimal :=
  let near := Neighbourhood.ofBinary mantissa exponent
  (near.coarsest? tie 18 (pointPosition near.value near.den)).getD ⟨0, 0⟩

/-- `mantissa · 2 ^ exponent` rounded to `places` decimal places; a tie goes to the even digit. -/
def toPlaces (places mantissa : Nat) : Int → Decimal
  | .ofNat k => ⟨mantissa * Nat.pow 2 k * Nat.pow 10 places, -places⟩
  | .negSucc k => ⟨roundDiv .even (mantissa * Nat.pow 10 places) (Nat.pow 2 (k + 1)), -places⟩

/-- The double nearest to `digits · 10 ^ exponent`. Beyond the range of doubles it is infinite,
below it zero, whatever the size of the exponent. -/
def Decimal.toFloat (d : Decimal) : Float :=
  if d.digits = 0 then 0.0
  else
    let top := (Nat.toDigits 10 d.digits).length + d.exponent
    if 400 < top then 1.0 / 0.0
    else if top < -400 then 0.0
    else
      match d.exponent with
      | .ofNat k => Float.ofScientific d.digits false k
      | .negSucc k => Float.ofScientific d.digits true (k + 1)

end Doctest.Number
