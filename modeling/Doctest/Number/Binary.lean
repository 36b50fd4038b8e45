/-!
# Doubles taken apart

A finite double is `± mantissa · 2 ^ exponent`. Everything that must be exact about doubles
(digits, whole parts, remainders) is computed on this form in integers.
-/

namespace Doctest.Number

/-- A double as sign, mantissa and exponent. -/
inductive Binary where
  | nan
  | infinite (negative : Bool)
  | finite (negative : Bool) (mantissa : Nat) (exponent : Int)
  deriving DecidableEq, Repr

/-- The parts of a double. Subnormal numbers and zeros have the least exponent, `-1074`. -/
def Binary.ofFloat (x : Float) : Binary :=
  let bits : Nat := x.toBits.toNat
  let negative := Nat.pow 2 63 ≤ bits
  let exponent : Nat := bits / Nat.pow 2 52 % Nat.pow 2 11
  let fraction : Nat := bits % Nat.pow 2 52
  if exponent = 2047 then
    if fraction = 0 then .infinite negative else .nan
  else if exponent = 0 then .finite negative fraction (-1074)
  else .finite negative (Nat.pow 2 52 + fraction) ((exponent : Int) - 1075)

/-- The double nearest to `mantissa · 2 ^ exponent`. A negative power of two is a power of five
over a power of ten. -/
def ofBinary (negative : Bool) (mantissa : Nat) (exponent : Int) : Float :=
  let size :=
    match exponent with
    | .ofNat k => Float.ofScientific (mantissa * Nat.pow 2 k) false 0
    | .negSucc k => Float.ofScientific (mantissa * Nat.pow 5 (k + 1)) true (k + 1)
  if negative then -size else size

/-- Whether the sign bit is set; it is for `-0`. -/
def isNegative (x : Float) : Bool :=
  Nat.pow 2 63 ≤ x.toBits.toNat

/-- The whole part of the size of `mantissa · 2 ^ exponent`. -/
def wholePart (mantissa : Nat) : Int → Nat
  | .ofNat k => mantissa * Nat.pow 2 k
  | .negSucc k => mantissa / Nat.pow 2 (k + 1)

/-- Whether `mantissa · 2 ^ exponent` is a whole number. -/
def hasNoFraction (mantissa : Nat) : Int → Bool
  | .ofNat _ => true
  | .negSucc k => mantissa % Nat.pow 2 (k + 1) = 0

/-- The whole number a finite double is cut to, toward zero. -/
def truncated? (x : Float) : Option Int :=
  match Binary.ofFloat x with
  | .finite negative mantissa exponent =>
    let size : Int := wholePart mantissa exponent
    some (if negative then -size else size)
  | _ => none

/-- Whether a double is a finite whole number. -/
def isWhole (x : Float) : Bool :=
  match Binary.ofFloat x with
  | .finite _ mantissa exponent => hasNoFraction mantissa exponent
  | _ => false

/-- A double cut to a whole number toward zero. The sign stays, also of a zero. -/
def truncate (x : Float) : Float :=
  match Binary.ofFloat x with
  | .finite negative mantissa exponent =>
    if hasNoFraction mantissa exponent then x
    else ofBinary negative (wholePart mantissa exponent) 0
  | _ => x

/-- The greatest whole double at or below a double. -/
def floor (x : Float) : Float :=
  match Binary.ofFloat x with
  | .finite negative mantissa exponent =>
    if hasNoFraction mantissa exponent then x
    else if negative then ofBinary true (wholePart mantissa exponent + 1) 0
    else ofBinary false (wholePart mantissa exponent) 0
  | _ => x

/-- The least whole double at or above a double; `-0` for those between `-1` and zero. -/
def ceiling (x : Float) : Float :=
  match Binary.ofFloat x with
  | .finite negative mantissa exponent =>
    if hasNoFraction mantissa exponent then x
    else if negative then ofBinary true (wholePart mantissa exponent) 0
    else ofBinary false (wholePart mantissa exponent + 1) 0
  | _ => x

/-- Multiplies a mantissa so that its exponent drops from `exponent` to `low`. -/
def rescale (mantissa : Nat) (exponent low : Int) : Nat :=
  mantissa * Nat.pow 2 (exponent - low).toNat

/-- The exact remainder of the division of two doubles that rounds toward zero; it has the sign
of the dividend. -/
def remainder (x y : Float) : Float :=
  match Binary.ofFloat x, Binary.ofFloat y with
  | .finite negative a p, .finite _ b q =>
    if b = 0 then 0.0 / 0.0
    else
      let low := min p q
      ofBinary negative (rescale a p low % rescale b q low) low
  | .finite .., .infinite _ => x
  | _, _ => 0.0 / 0.0

end Doctest.Number
