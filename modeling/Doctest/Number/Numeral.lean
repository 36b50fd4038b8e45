import Doctest.Number.Decimal

/-!
# Numerals

Decimal numerals as they are written: digits, a fraction and an exponent, each part of which may
be missing.
-/

namespace Doctest.Number

/-- The value of a digit in any base up to sixteen. -/
def digitValue (c : Char) : Nat :=
  if '0' ≤ c ∧ c ≤ '9' then c.toNat - 0x30
  else if 'a' ≤ c ∧ c ≤ 'f' then c.toNat - 0x61 + 10
  else if 'A' ≤ c ∧ c ≤ 'F' then c.toNat - 0x41 + 10
  else 0

/-- Whether a character is a hexadecimal digit. -/
def isHexDigit (c : Char) : Bool :=
  ('0' ≤ c && c ≤ '9') || ('a' ≤ c && c ≤ 'f') || ('A' ≤ c && c ≤ 'F')

/-- The number that digits write in a base. -/
def ofDigits (base : Nat) (digits : List Char) : Nat :=
  digits.foldl (fun n c => n * base + digitValue c) 0

/-- The number that digits write in a base, if it is below a bound. -/
def ofDigitsBelow? (base bound : Nat) (digits : List Char) : Option Nat :=
  digits.foldlM (fun n c =>
    let next := n * base + digitValue c
    if next < bound then some next else none) 0

/-- The parts of a numeral: the digits before and after the point, and the exponent. -/
structure Numeral where
  whole : List Char
  fraction : List Char
  exponent : Int
  deriving DecidableEq, Repr

/-- How many digits of a numeral count one by one. The points half way between two doubles have no
more than 768 digits, so of all further digits it only matters whether they are zeros. -/
def countedDigits : Nat :=
  800

/-- The decimal that stands for a numeral. If more digits follow those that are counted, and not
only zeros, a one after them says so. -/
def Numeral.decimal (numeral : Numeral) : Decimal :=
  let digits := (numeral.whole ++ numeral.fraction).dropWhile (· = '0')
  let counted := digits.take countedDigits
  let rest := digits.drop countedDigits
  let exponent := numeral.exponent - numeral.fraction.length + rest.length
  if rest.all (· = '0') then ⟨ofDigits 10 counted, exponent⟩
  else ⟨ofDigits 10 (counted ++ ['1']), exponent - 1⟩

/-- The double nearest to a numeral. -/
def Numeral.value (numeral : Numeral) : Float :=
  numeral.decimal.toFloat

/-- The bound up to which the digits of an exponent count. -/
def exponentBound : Nat :=
  Nat.pow 2 16

/-- The value of the digits of an exponent. Digits after one that makes it reach the bound are left
out: only a numeral with thousands of zeros could tell. -/
def exponentValue (digits : List Char) : Nat :=
  digits.foldl (fun n c => if n < exponentBound then n * 10 + digitValue c else n) 0

/-- The exponent at the front of a text, an `e` with a sign or without one and at least one digit,
and the number of its characters; none if there is none. -/
def exponent? : List Char → Option (Int × Nat)
  | [] => none
  | c :: s =>
    if c = 'e' ∨ c = 'E' then
      let sign := s.takeWhile (fun d => d = '+' ∨ d = '-')
      let digits := (s.drop sign.length).takeWhile Char.isDigit
      if 1 < sign.length ∨ digits.isEmpty then none
      else
        let size : Int := exponentValue digits
        some (if sign = ['-'] then -size else size, 1 + sign.length + digits.length)
    else none

end Doctest.Number
