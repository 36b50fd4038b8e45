import Mathlib
import Doctest.Json.Read
import Doctest.Proofs.Number.Digits
import Doctest.Proofs.Number.Doubles

/-!
# Strings and numbers of JSON

Strings and whole numbers are read as what they were written from; only the sign of a zero is lost.
-/

namespace Doctest.Json

open Number

/-! ### Strings -/

theorem hexValue?_hexDigit {n : Nat} (h : n < 16) : hexValue? (hexDigit n) = some n := by
  have hall : ∀ n < 16, hexValue? (hexDigit n) = some n := by decide
  exact hall n h

/-- The escape of a control character is read as that character. -/
theorem readEscapedUnit?_hexDigits {c : Char} (h : c.toNat < 0x20) (s : List Char) :
    readEscapedUnit? ('0' :: '0' :: hexDigit (c.toNat / 16) :: hexDigit (c.toNat % 16) :: s) =
      some (c, s) := by
  have hunit : readUnit? ('0' :: '0' :: hexDigit (c.toNat / 16) :: hexDigit (c.toNat % 16) :: s) =
      some (c.toNat, s) := by
    have hzero : hexValue? '0' = some 0 := by decide
    rw [readUnit?, hzero, hexValue?_hexDigit (by omega),
      hexValue?_hexDigit (Nat.mod_lt _ (by decide))]
    dsimp only
    congr 2
    omega
  rw [readEscapedUnit?, hunit]
  dsimp only
  rw [if_neg (by omega), if_neg (by omega), Char.ofNat_toNat]

/-- A character is escaped by one character, by its number, or not at all. -/
theorem escapeChar_cases (c : Char) :
    (∃ e, simpleEscape? e = some c ∧ escapeChar c = ['\\', e]) ∨
      (c.toNat < 0x20 ∧ escapeChar c =
        ['\\', 'u', '0', '0', hexDigit (c.toNat / 16), hexDigit (c.toNat % 16)]) ∨
      (c ≠ '\x22' ∧ c ≠ '\\' ∧ ¬ c.toNat < 0x20 ∧ escapeChar c = [c]) := by
  unfold escapeChar
  iterate 7
    split
    · next h => exact .inl ⟨_, by rw [h]; rfl, rfl⟩
  split
  · next h => exact .inr (.inl ⟨h, rfl⟩)
  · next hquote hslash _ _ _ _ _ hcontrol =>
    exact .inr (.inr ⟨hquote, hslash, hcontrol, rfl⟩)

theorem readChars?_simpleEscape {e c : Char} (he : simpleEscape? e = some c)
    (fuel : Nat) (s : List Char) :
    readChars? (fuel + 1) ('\\' :: e :: s) =
      (readChars? fuel s).map fun (cs, s) => (c :: cs, s) := by
  have hne : e ≠ 'u' := by
    rintro rfl
    cases he
  simp [readChars?, he]

theorem readChars?_escapedUnit {c : Char} {s rest : List Char}
    (h : readEscapedUnit? s = some (c, rest)) (fuel : Nat) :
    readChars? (fuel + 1) ('\\' :: 'u' :: s) =
      (readChars? fuel rest).map fun (cs, s) => (c :: cs, s) := by
  simp [readChars?, h]

/-- Escaped characters up to a quote are read as those characters. -/
theorem readChars?_escape {fuel : Nat} (cs s : List Char) (hfuel : cs.length < fuel) :
    readChars? fuel (cs.flatMap escapeChar ++ '\x22' :: s) = some (cs, s) := by
  induction cs generalizing fuel with
  | nil =>
    obtain ⟨fuel, rfl⟩ := Nat.exists_eq_succ_of_ne_zero (Nat.ne_of_gt hfuel)
    rfl
  | cons c cs ih =>
    obtain ⟨fuel, rfl⟩ := Nat.exists_eq_succ_of_ne_zero (Nat.ne_of_gt (Nat.zero_lt_of_lt hfuel))
    have hrest := @ih fuel (Nat.lt_of_succ_lt_succ hfuel)
    rw [List.flatMap_cons, List.append_assoc]
    generalize cs.flatMap escapeChar ++ '\x22' :: s = rest at hrest ⊢
    suffices hchar : readChars? (fuel + 1) (escapeChar c ++ rest) =
        (readChars? fuel rest).map fun (cs, s) => (c :: cs, s) by
      rw [hchar, hrest, Option.map_some]
    rcases escapeChar_cases c with ⟨e, he, hc⟩ | ⟨hlt, hc⟩ | ⟨hquote, hslash, hcontrol, hc⟩
    · rw [hc]
      exact readChars?_simpleEscape he fuel rest
    · rw [hc]
      exact readChars?_escapedUnit (readEscapedUnit?_hexDigits hlt rest) fuel
    · rw [hc, List.singleton_append]
      simp only [readChars?, hquote, hslash, hcontrol, if_false]

theorem readString?_quote (fuel : Nat) (text : String) (s : List Char)
    (hfuel : text.toList.length < fuel) :
    readString? fuel (text.toList.flatMap escapeChar ++ '\x22' :: s) = some (text, s) := by
  rw [readString?, readChars?_escape _ _ hfuel, Option.map_some]
  dsimp only
  rw [String.ofList_toList]

theorem length_le_length_flatMap_escapeChar (cs : List Char) :
    cs.length ≤ (cs.flatMap escapeChar).length := by
  have hone (c : Char) : 1 ≤ (escapeChar c).length := by
    rcases escapeChar_cases c with ⟨e, -, hc⟩ | ⟨-, hc⟩ | ⟨-, -, -, hc⟩ <;>
      simp [hc]
  induction cs with
  | nil => exact Nat.le_refl 0
  | cons c cs ih =>
    rw [List.flatMap_cons, List.length_append, List.length_cons, Nat.add_comm]
    exact Nat.add_le_add (hone c) ih

/-! ### Numbers -/

/-- Digits are read as long as the number that they make stays in bounds. -/
theorem appendDigits_eq {digits : List Char} {significand : Nat}
    (h : Nat.ofDigitChars 10 digits significand ≤ greatestSignificand) :
    appendDigits significand digits = (Nat.ofDigitChars 10 digits significand, digits.length) := by
  induction digits generalizing significand with
  | nil => rfl
  | cons c digits ih =>
    rw [Nat.ofDigitChars_cons, Nat.mul_comm] at h ⊢
    have hnext : significand * 10 + (c.toNat - 0x30) ≤ greatestSignificand :=
      Nat.le_trans (le_ofDigitChars _ digits) h
    have hdigits : appendDigits (significand * 10 + (c.toNat - 0x30)) digits =
        (Nat.ofDigitChars 10 digits (significand * 10 + (c.toNat - 0x30)), digits.length) := ih h
    rw [appendDigits, if_neg (Nat.not_lt.mpr hnext)]
    dsimp only
    rw [hdigits]
    rfl

/-- What may follow a number. -/
def EndsNumber (rest : List Char) : Prop :=
  ∀ c ∈ rest.head?, c.isDigit = false ∧ c ≠ '.' ∧ c ≠ 'e' ∧ c ≠ 'E'

variable {rest : List Char}

/-- The digits of a number are read as that number. -/
theorem readSize?_toDigits {n : Nat} (hlt : n < 2 ^ 53) (hrest : EndsNumber rest) :
    readSize? (Nat.toDigits 10 n ++ rest) =
      some (Float.ofNat n * Float.ofScientific 1 false 0, rest) := by
  have hdigit := fun c hmem => (hrest c hmem).1
  have hfraction : readFraction? rest = some ([], rest) := by
    unfold readFraction?
    split
    · next s => exact absurd rfl (hrest '.' rfl).2.1
    · rfl
  have hexponent : readExponent? rest = some (0, rest) := by
    cases rest with
    | nil => rfl
    | cons c s =>
      unfold readExponent?
      exact if_neg (not_or.mpr (hrest c rfl).2.2)
  have hbound : Nat.ofDigitChars 10 (Nat.toDigits 10 n) 0 ≤ greatestSignificand := by
    rw [Nat.ofDigitChars_ten_toDigits]
    exact Nat.le_of_lt (Nat.lt_of_lt_of_le hlt (by decide))
  have hscaled : scaled? n 0 = some (Float.ofNat n * Float.ofScientific 1 false 0) := by
    have hinf : (Float.ofNat n * Float.ofScientific 1 false 0).isInf = false := by
      cases n with
      | zero => decide
      | succ n => exact isInf_ofNat_mul_one (Nat.succ_pos n) hlt
    change scaled? n (.ofNat 0) = _
    unfold scaled?
    dsimp only
    rw [if_pos (Nat.zero_le 308), hinf]
    rfl
  unfold readSize?
  dsimp only
  rw [takeWhile_until (isDigit_toDigits n) hdigit, dropWhile_until (isDigit_toDigits n) hdigit]
  split
  · next h => exact absurd h Nat.toDigits_ne_nil
  · next c s h =>
    cases n with
    | zero => cases h
    | succ n =>
      exact absurd (congrArg List.head? h) (head?_toDigits_ne (Nat.succ_pos n))
  · rw [hfraction, Option.bind_eq_bind, Option.bind_some, hexponent]
    dsimp only [Option.bind_eq_bind, Option.bind_some, appendDigits]
    rw [appendDigits_eq hbound, Nat.ofDigitChars_ten_toDigits]
    dsimp only
    rw [Nat.sub_self]
    change (scaled? n 0).bind _ = _
    rw [hscaled]
    rfl

/-- Whether a double is a whole number of a magnitude up to which it is written as an integer. -/
def isInteger (x : Float) : Bool :=
  isWhole x && (truncated? x).any fun n => decide (n.natAbs ≤ greatestInteger)

/-- A number without the sign of a zero. -/
def unsigned (x : Float) : Float :=
  if x = -0.0 then 0.0 else x

theorem parts_of_isInteger {x : Float} (h : isInteger x = true) :
    ∃ negative m e, Binary.ofFloat x = .finite negative m e ∧ hasNoFraction m e = true ∧
      wholePart m e ≤ greatestInteger := by
  unfold isInteger isWhole truncated? at h
  cases hparts : Binary.ofFloat x with
  | nan | infinite => simp [hparts] at h
  | finite negative m e =>
    rw [hparts] at h
    obtain ⟨hwhole, hsize⟩ := Bool.and_eq_true_iff.mp h
    refine ⟨negative, m, e, rfl, hwhole, ?_⟩
    have hsize := of_decide_eq_true hsize
    split at hsize <;> omega

/-- The text of a whole number is its sign, unless it is zero, and its digits. -/
theorem numberText_of_parts {x : Float} {negative : Bool} {m : Nat} {e : Int}
    (hparts : Binary.ofFloat x = .finite negative m e) (hwhole : hasNoFraction m e = true)
    (hsize : wholePart m e ≤ greatestInteger) :
    (numberText x).toList =
      (if negative ∧ wholePart m e ≠ 0 then ['-'] else []) ++ Nat.toDigits 10 (wholePart m e) := by
  unfold numberText
  rw [hparts]
  dsimp only
  rw [if_pos ⟨hwhole, hsize⟩, String.toList_append, Nat.toString_eq_repr, Nat.toList_repr]
  split <;> rfl

theorem numberText_head {x : Float} (h : isInteger x = true) :
    ∃ c t, (numberText x).toList = c :: t ∧ (c = '-' ∨ c.isDigit = true) := by
  obtain ⟨negative, m, e, hparts, hwhole, hsize⟩ := parts_of_isInteger h
  rw [numberText_of_parts hparts hwhole hsize]
  split
  · exact ⟨'-', _, rfl, .inl rfl⟩
  · cases hdigits : Nat.toDigits 10 (wholePart m e) with
    | nil => exact absurd hdigits Nat.toDigits_ne_nil
    | cons c t =>
      exact ⟨c, t, rfl, .inr (isDigit_toDigits _ c (hdigits ▸ List.mem_cons_self))⟩

/-- The text of a whole number is read as that number. -/
theorem readNumber?_numberText {x : Float} (h : isInteger x = true) (hrest : EndsNumber rest) :
    readNumber? ((numberText x).toList ++ rest) = some (unsigned x, rest) := by
  obtain ⟨negative, m, e, hparts, hwhole, hsize⟩ := parts_of_isInteger h
  have hlt : wholePart m e < 2 ^ 53 := Nat.lt_of_le_of_lt hsize (by decide)
  have hread := readSize?_toDigits hlt hrest
  have hdigits : readNumber? (Nat.toDigits 10 (wholePart m e) ++ rest) =
      readSize? (Nat.toDigits 10 (wholePart m e) ++ rest) := by
    unfold readNumber?
    split
    · next s hs =>
      cases hcons : Nat.toDigits 10 (wholePart m e) with
      | nil => exact absurd hcons Nat.toDigits_ne_nil
      | cons c t =>
        rw [hcons] at hs
        cases hs
        have := isDigit_toDigits _ '-' (hcons ▸ List.mem_cons_self)
        cases this
    · rfl
  rw [numberText_of_parts hparts hwhole hsize]
  by_cases hzero : wholePart m e = 0
  · have hm := mantissa_of_wholePart hwhole hzero
    subst hm
    rw [if_neg fun h => h.2 hzero, List.nil_append, hdigits, hread, hzero]
    have hx := eq_zero_of_mantissa hparts
    have hunsigned : ∀ negative, unsigned (withSign negative 0.0) =
        Float.ofNat 0 * Float.ofScientific 1 false 0 := by decide
    rw [hx, hunsigned]
  · have hx := eq_of_whole hparts hwhole rfl (Nat.pos_of_ne_zero hzero) hlt
    have hunsigned : unsigned x = x := by
      refine if_neg ?_
      rintro rfl
      have hnegative : Binary.ofFloat (-0.0) = .finite true 0 (-1074) := by decide
      rw [hnegative] at hparts
      cases hparts
      exact hzero (wholePart_zero _)
    rw [hunsigned]
    cases negative with
    | false =>
      rw [if_neg fun h => Bool.false_ne_true h.1, List.nil_append, hdigits, hread, ← hx]
      rfl
    | true =>
      rw [if_pos ⟨rfl, hzero⟩, List.singleton_append, List.cons_append, readNumber?, hread, ← hx]
      rfl

end Doctest.Json
