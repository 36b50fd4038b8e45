import Doctest.Number.Numeral
import Mathlib.Data.List.Induction

/-!
# Digits of a number

The decimal digits of a number are digits, of which the first is no zero unless the number is, and
they make the number again. Other digits do not make it.
-/

namespace Doctest.Number

theorem isDigit_toDigits (n : Nat) : ∀ c ∈ Nat.toDigits 10 n, c.isDigit = true :=
  fun _ hmem => Nat.isDigit_of_mem_toDigits (by decide) (by decide) hmem

/-- The digits of a positive number do not begin with a zero. -/
theorem head?_toDigits_ne {n : Nat} (hpos : 0 < n) : (Nat.toDigits 10 n).head? ≠ some '0' := by
  induction n using Nat.strongRecOn with
  | ind n ih =>
    rw [Nat.toDigits_eq_if (by decide)]
    split
    case isTrue hlt =>
      intro hhead
      have hzero : n.digitChar = '0' := by simpa using hhead
      have : ∀ k < 10, 0 < k → k.digitChar ≠ '0' := by decide
      exact this n hlt hpos hzero
    case isFalse hge =>
      rw [List.head?_append, Option.or_of_isSome (by simp)]
      exact ih (n / 10) (Nat.div_lt_self hpos (by decide)) (by omega)

/-- A digit is the one of its own value, which is below ten. -/
theorem toDigits_of_isDigit {c : Char} (h : c.isDigit = true) :
    c.toNat - '0'.toNat < 10 ∧ Nat.toDigits 10 (c.toNat - '0'.toNat) = [c] := by
  have hrange : '0'.toNat ≤ c.toNat ∧ c.toNat ≤ '9'.toNat := by
    rw [Char.isDigit, Bool.and_eq_true, decide_eq_true_eq, decide_eq_true_eq] at h
    exact h
  have hall : ∀ k ≤ '9'.toNat, '0'.toNat ≤ k → k - '0'.toNat < 10 ∧
      Nat.toDigits 10 (k - '0'.toNat) = [Char.ofNat k] := by decide
  have hown := hall c.toNat hrange.2 hrange.1
  rwa [Char.ofNat_toNat] at hown

/-- Digits without a needless zero in front are those of the number that they make. -/
theorem toDigits_ofDigitChars {digits : List Char} (hsome : digits ≠ [])
    (hdigits : ∀ c ∈ digits, c.isDigit = true)
    (hzero : 1 < digits.length → digits.head? ≠ some '0') :
    Nat.toDigits 10 (Nat.ofDigitChars 10 digits 0) = digits := by
  induction digits using List.reverseRecOn with
  | nil => exact absurd rfl hsome
  | append_singleton front c ih =>
    obtain ⟨hfront, hc⟩ := List.forall_mem_append.mp hdigits
    obtain ⟨hlt, hlast⟩ := toDigits_of_isDigit (hc c (List.mem_singleton_self c))
    rw [Nat.ofDigitChars_append, Nat.ofDigitChars_cons, Nat.ofDigitChars_nil]
    by_cases hnil : front = []
    · subst hnil
      exact (congrArg _ (Nat.zero_add _)).trans hlast
    have hhead : front.head? ≠ some '0' := by
      have hlength := List.length_pos_iff.mpr hnil
      have hfirst := hzero (by rw [List.length_append, List.length_singleton]; omega)
      rwa [List.head?_append, Option.or_of_isSome (List.isSome_head?.mpr hnil)] at hfirst
    have hown := ih hnil hfront fun _ => hhead
    have hpos : 0 < Nat.ofDigitChars 10 front 0 := by
      refine Nat.pos_of_ne_zero fun hnone => hhead ?_
      rw [← hown, hnone]
      rfl
    rw [← Nat.toDigits_append_toDigits (by decide) hpos hlt, hown, hlast]

/-- Appending digits makes a number no smaller. -/
theorem le_ofDigitChars (init : Nat) (digits : List Char) :
    init ≤ Nat.ofDigitChars 10 digits init := by
  rw [Nat.ofDigitChars_eq_ofDigitChars_zero]
  exact Nat.le_add_right_of_le (Nat.le_mul_of_pos_left init (Nat.pow_pos (by decide)))

theorem digitValue_of_isDigit {c : Char} (h : c.isDigit = true) :
    digitValue c = c.toNat - '0'.toNat := by
  have hrange : '0' ≤ c ∧ c ≤ '9' := by
    rw [Char.isDigit, Bool.and_eq_true, decide_eq_true_eq, decide_eq_true_eq] at h
    exact h
  rw [digitValue, if_pos hrange]
  rfl

/-- Digits are read up to a bound exactly if the number that they make is below it. -/
theorem foldlM_below {bound : Nat} {digits : List Char} (hdigits : ∀ c ∈ digits, c.isDigit = true)
    {init : Nat} (hinit : init < bound) :
    digits.foldlM (fun n c =>
        if n * 10 + digitValue c < bound then some (n * 10 + digitValue c) else none) init =
      if Nat.ofDigitChars 10 digits init < bound then some (Nat.ofDigitChars 10 digits init)
      else none := by
  induction digits generalizing init with
  | nil => exact (if_pos hinit).symm
  | cons c digits ih =>
    rw [List.forall_mem_cons] at hdigits
    rw [List.foldlM_cons, Nat.ofDigitChars_cons, Nat.mul_comm 10,
      ← digitValue_of_isDigit hdigits.1]
    by_cases hnext : init * 10 + digitValue c < bound
    · rw [if_pos hnext]
      exact ih hdigits.2 hnext
    · have hle := le_ofDigitChars (init * 10 + digitValue c) digits
      rw [if_neg hnext, if_neg fun hlast => hnext (Nat.lt_of_le_of_lt hle hlast)]
      rfl

/-- A number is read from its digits if it is below the bound. -/
theorem ofDigitsBelow?_toDigits {bound : Nat} (hbound : 0 < bound) (n : Nat) :
    ofDigitsBelow? 10 bound (Nat.toDigits 10 n) = if n < bound then some n else none := by
  have hread := foldlM_below (isDigit_toDigits n) hbound
  rwa [Nat.ofDigitChars_ten_toDigits] at hread

/-! ### Characters up to a boundary -/

variable {p : Char → Bool} {own rest : List Char}

/-- Characters that a test tells apart are not the same. -/
theorem ne_of_holds {c d : Char} (hc : p c = true) (hd : p d = false) : c ≠ d := by
  rintro rfl
  rw [hc] at hd
  cases hd

theorem takeWhile_until (hown : ∀ c ∈ own, p c = true) (hrest : ∀ c ∈ rest.head?, p c = false) :
    (own ++ rest).takeWhile p = own := by
  have hend : rest.takeWhile p = [] := by
    cases rest with
    | nil => rfl
    | cons c rest => rw [List.takeWhile_cons, hrest c rfl, if_neg nofun]
  rw [List.takeWhile_append_of_pos hown, hend, List.append_nil]

theorem dropWhile_until (hown : ∀ c ∈ own, p c = true) (hrest : ∀ c ∈ rest.head?, p c = false) :
    (own ++ rest).dropWhile p = rest := by
  rw [List.dropWhile_append_of_pos hown]
  cases rest with
  | nil => rfl
  | cons c rest => rw [List.dropWhile_cons, hrest c rfl, if_neg nofun]

end Doctest.Number
