import Doctest.Script.Operator
import Doctest.Script.Property

/-!
# Numbers

The methods of numbers and the functions of `Math`.
-/

namespace Doctest.Script.Library

/-- The count of decimal places that a number is. -/
def decimalPlaces? (x : Float) : Option Nat :=
  if x.isNaN then some 0
  else
    match Number.truncated? x with
    | some (.ofNat places) => if places ≤ 100 then some places else none
    | _ => none

/-- Calls a method of a number. -/
def callNumberMethod (receiver : Float) (method : NumberMethod) (args : List Value) :
    Eval Value := do
  match method with
  | .toString => return .string (Number.text receiver)
  | .toFixed =>
    let x ←
      match args[0]? with
      | some value => Eval.number value
      | none => pure 0.0
    match decimalPlaces? x with
    | some places =>
      return .string ((Number.fixedText? places receiver).getD (Number.text receiver))
    | none => Eval.fail .decimalPlaces

/-- The extreme one of `best` and some values, or not a number at the first that is not one. A
number replaces the best before it where it is `atLeastAsExtreme`, so the last of equal ones is
kept: the two zeros are equal, and a result of zero has the sign of the last zero. -/
def extreme (atLeastAsExtreme : Float → Float → Bool) (best : Float) : List Value → Eval Float
  | [] => return best
  | value :: rest => do
    let x ← Eval.number value
    if x.isNaN then return x
    else extreme atLeastAsExtreme (if atLeastAsExtreme x best then x else best) rest

/-- Calls a function of `Math`. -/
def callMath (function : MathFunction) (args : List Value) : Eval Value := do
  let number (index : Nat) : Eval Float :=
    match args[index]? with
    | some value => Eval.number value
    | none => return 0.0 / 0.0
  let result ←
    match function with
    | .max => extreme (· ≥ ·) (-1.0 / 0.0) args
    | .min => extreme (· ≤ ·) (1.0 / 0.0) args
    | .floor => return .number (Number.floor (← number 0))
    | .ceil => return .number (Number.ceiling (← number 0))
    | .round => return .number (Number.floor ((← number 0) + 0.5))
    | .trunc => return .number (Number.truncate (← number 0))
    | .abs => return .number (← number 0).abs
    | .sqrt => return .number (← number 0).sqrt
    | .pow =>
      let exponent ← number 1
      if exponent.isNaN then return .number exponent
      else return .number (power (← number 0) exponent)
  return .number result

end Doctest.Script.Library
