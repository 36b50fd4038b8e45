import Doctest.Proofs.Number.Numerals
import Doctest.Proofs.Number.Shortest

/-!
# Numbers as keys

The text of a number as a key has no exponent, and of a whole number it is all digits, up to the
greatest integer of sixty-four bits. The text that a number converts to has the digits of its
shortest decimal and may have an exponent. So the two are the same exactly if there is no exponent
and the shortest decimal of a whole number, which has to fit, is the number itself.
-/

namespace Doctest.Number

variable {x : Float} {digits : List Char} {point : Int} {n m : Nat} {e : Int}

/-! ### The characters of number texts -/

/-- The digits of a number with zeros behind them. -/
theorem toDigits_mul_pow (hpos : 0 < n) (k : Nat) :
    Nat.toDigits 10 (n * 10 ^ k) = Nat.toDigits 10 n ++ List.replicate k '0' := by
  induction k with
  | zero => rw [Nat.pow_zero, Nat.mul_one, List.replicate_zero, List.append_nil]
  | succ k ih =>
    have hzero : Nat.toDigits 10 0 = ['0'] := rfl
    have hshift : n * 10 ^ (k + 1) = 10 * (n * 10 ^ k) + 0 := by ring
    rw [hshift, ← Nat.toDigits_append_toDigits (by decide)
      (Nat.mul_pos hpos (Nat.pow_pos (by decide))) (by decide), ih, hzero, List.append_assoc,
      List.replicate_succ']

/-- A text without an exponent is digits and a point. -/
theorem exponent_not_mem_positionalText (h : ∀ c ∈ digits, c.isDigit = true) (point : Int) :
    'e' ∉ (positionalText "" digits point).toList := by
  have hzeros (count : Nat) : 'e' ∉ List.replicate count '0' := by simp
  have hdigits : 'e' ∉ digits := fun hmem => absurd (h _ hmem) (by decide)
  have htake : 'e' ∉ digits.take point.toNat := fun hmem => hdigits (List.mem_of_mem_take hmem)
  have hdrop : 'e' ∉ digits.drop point.toNat := fun hmem => hdigits (List.mem_of_mem_drop hmem)
  rw [positionalText]
  split
  · simp [hdigits]
  split
  · simp [hdigits]
  · simp [htake, hdrop]

/-- A mark stands in front of an exponent. -/
theorem exponent_mem_scientificText (digits : List Char) (point : Int) :
    'e' ∈ (scientificText "e+" digits point).toList := by
  unfold scientificText
  dsimp only
  rw [String.toList_append, List.mem_append]
  refine .inr ?_
  split <;> simp

theorem exponent_not_mem_toString (n : Nat) : 'e' ∉ (toString n).toList := by
  rw [toList_toString]
  exact fun hmem => absurd (isDigit_toDigits n _ hmem) (by decide)

/-! ### The texts of sizes -/

/-- The digits of the shortest decimal of a number. -/
abbrev shortestDigits (m : Nat) (e : Int) : List Char :=
  Nat.toDigits 10 (shortest .up m e).digits

/-- The position of the point among the digits of the shortest decimal. -/
abbrev shortestPoint (m : Nat) (e : Int) : Int :=
  (shortestDigits m e).length + (shortest .up m e).exponent

theorem sizeText_key (m : Nat) (e : Int) :
    Layout.key.sizeText m e = positionalText "" (shortestDigits m e) (shortestPoint m e) :=
  rfl

theorem sizeText_script (m : Nat) (e : Int) :
    Layout.script.sizeText m e =
      if -6 < shortestPoint m e ∧ shortestPoint m e ≤ 21
      then positionalText "" (shortestDigits m e) (shortestPoint m e)
      else scientificText "e+" (shortestDigits m e) (shortestPoint m e) := by
  have hcond : Layout.script.positional (shortestPoint m e) =
      decide (-6 < shortestPoint m e ∧ shortestPoint m e ≤ 21) := by
    rw [Bool.decide_and]
    rfl
  change (if Layout.script.positional (shortestPoint m e) = true then _ else _) = _
  rw [hcond]
  simp only [decide_eq_true_eq]
  rfl

/-- An exponent is written exactly where the point is far from the digits. -/
theorem exponent_mem_sizeText_iff (m : Nat) (e : Int) :
    'e' ∉ (Layout.script.sizeText m e).toList ↔
      -6 < shortestPoint m e ∧ shortestPoint m e ≤ 21 := by
  rw [sizeText_script]
  split
  · next hpoint => exact iff_of_true (exponent_not_mem_positionalText (isDigit_toDigits _) _) hpoint
  · next hpoint =>
    exact iff_of_false (fun hnot => hnot (exponent_mem_scientificText _ _)) hpoint

/-- Without an exponent the digits are the same. -/
theorem key_eq_script_iff (m : Nat) (e : Int) :
    Layout.key.sizeText m e = Layout.script.sizeText m e ↔
      'e' ∉ (Layout.script.sizeText m e).toList := by
  constructor
  · intro heq
    rw [← heq]
    exact exponent_not_mem_positionalText (isDigit_toDigits _) _
  · intro hnot
    rw [sizeText_key, sizeText_script, if_pos ((exponent_mem_sizeText_iff m e).mp hnot)]

/-- Digits of a whole number, with zeros up to the point. -/
theorem positionalText_zeros (digits : List Char) (hsome : digits ≠ []) (k : Nat) :
    (positionalText "" digits (digits.length + k)).toList = digits ++ List.replicate k '0' := by
  have hlength := List.length_pos_of_ne_nil hsome
  have hzeros : ((digits.length : Int) + k).toNat - digits.length = k := by omega
  rw [positionalText, if_neg (by omega), if_pos (by omega), hzeros]
  simp

section Whole

variable (hwhole : hasNoFraction m e = true) (hn : wholePart m e = n) (hm : m < 2 ^ 53)
include hwhole hn hm

/-- A whole number from twenty-two places on is written with an exponent. -/
theorem exponent_mem_of_large (hlarge : 10 ^ 21 ≤ n) :
    'e' ∈ (Layout.script.sizeText m e).toList := by
  have hplaces : 21 < (Nat.toDigits 10 n).length := by
    by_contra hle
    exact absurd ((Nat.length_toDigits_le_iff (by decide) (by decide)).mp (not_lt.mp hle))
      (not_lt.mpr hlarge)
  obtain ⟨i, hi, -, hlength⟩ := shortest_places .up hwhole hn hm (by omega)
  by_contra hnot
  have hpoint := ((exponent_mem_sizeText_iff m e).mp hnot).2
  rw [shortestPoint, hi] at hpoint
  change ((Nat.toDigits 10 (shortest .up m e).digits).length : Int) + i ≤ 21 at hpoint
  omega

/-- The greatest integer of sixty-four bits is no text of a greater number. -/
theorem sizeText_ne_greatest (hlarge : 2 ^ 63 ≤ n) :
    Layout.script.sizeText m e ≠ toString (2 ^ 63 - 1) := by
  have hplaces : 18 < (Nat.toDigits 10 n).length := by
    by_contra hle
    have hlt := (Nat.length_toDigits_le_iff (by decide) (by decide)).mp (not_lt.mp hle)
    omega
  obtain ⟨i, hi, hzeros, -⟩ := shortest_places .up hwhole hn hm (by omega)
  intro heq
  have hnot : 'e' ∉ (Layout.script.sizeText m e).toList := by
    rw [heq]
    exact exponent_not_mem_toString _
  have htext := congrArg String.toList heq
  rw [sizeText_script, if_pos ((exponent_mem_sizeText_iff m e).mp hnot), shortestPoint, hi,
    positionalText_zeros _ Nat.toDigits_ne_nil, toList_toString] at htext
  -- The one text ends in a zero, the other one does not.
  have hlast := congrArg List.getLast? htext
  obtain ⟨k, rfl⟩ : ∃ k, i = k + 1 := ⟨i - 1, by omega⟩
  rw [List.replicate_succ', ← List.append_assoc, List.getLast?_concat] at hlast
  revert hlast
  decide

/-- Whole numbers of at most fifty-three bits are written with all their digits. -/
theorem sizeText_exact (hpos : 0 < n) (hlt : n < 2 ^ 53)
    (hrange : 2 ^ 52 ≤ m ∨ m < 2 ^ 52 ∧ e = -1074) :
    Layout.script.sizeText m e = toString n := by
  obtain ⟨i, hi, hdigits⟩ := shortest_exact .up hwhole hn hpos hlt hm hrange
  have hsome : 0 < (shortest .up m e).digits := by
    apply Nat.pos_of_ne_zero
    intro hzero
    rw [hzero, Nat.zero_mul] at hdigits
    omega
  have hall : shortestDigits m e ++ List.replicate i '0' = Nat.toDigits 10 n := by
    rw [← hdigits, toDigits_mul_pow hsome]
  have hplaces : (Nat.toDigits 10 n).length ≤ 16 :=
    (Nat.length_toDigits_le_iff (by decide) (by decide)).mpr (hlt.trans (by decide))
  rw [← hall, List.length_append, List.length_replicate] at hplaces
  have hpoint : -6 < shortestPoint m e ∧ shortestPoint m e ≤ 21 := by
    rw [shortestPoint, hi]
    omega
  apply String.toList_inj.mp
  rw [sizeText_script, if_pos hpoint, shortestPoint, hi,
    positionalText_zeros _ Nat.toDigits_ne_nil, hall, toList_toString]

end Whole

/-! ### The texts of numbers -/

/-- A finite double has a mantissa and an exponent. -/
theorem exists_finite (hx : x.isFinite = true) :
    ∃ negative m e, Binary.ofFloat x = .finite negative m e := by
  rw [ofFloat_eq]
  change x.toModel.unpack.isFinite = true at hx
  cases hunpack : x.toModel.unpack with
  | finite | zero => exact ⟨_, _, _, rfl⟩
  | notANumber | infinity s =>
    rw [hunpack] at hx
    cases hx

theorem toString_neg (hpos : 0 < n) : toString (-(n : Int)) = "-" ++ toString n := by
  cases n with
  | zero => exact absurd hpos (Nat.lt_irrefl 0)
  | succ n => rfl

theorem append_left_inj {sign a b : String} : sign ++ a = sign ++ b ↔ a = b := by
  rw [← String.toList_inj, String.toList_append, String.toList_append, List.append_right_inj,
    String.toList_inj]

/-- A number is written with all digits of a whole number, which fits into sixty-four bits. -/
def IsExact (x : Float) (n : Int) : Prop :=
  n.natAbs < 2 ^ 63 ∧ text x = toString n

/-- Both texts of zero are the digit. -/
theorem texts_of_zero {negative : Bool} (hparts : Binary.ofFloat x = .finite negative 0 e) :
    keyText x = "0" ∧ text x = "0" ∧ truncated? x = some 0 := by
  have hfraction : hasNoFraction 0 e = true := by
    cases e with
    | ofNat k => rfl
    | negSucc k => exact decide_eq_true (Nat.zero_mod (Nat.pow 2 (k + 1)))
  have hwhole := wholePart_zero e
  rw [keyText, text, truncated?, hparts]
  dsimp only
  rw [hwhole, if_pos ⟨hfraction, by decide⟩, if_pos rfl, if_pos rfl]
  refine ⟨rfl, rfl, ?_⟩
  split <;> rfl

section Finite

variable {negative : Bool} (hparts : Binary.ofFloat x = .finite negative m e) (hm : m ≠ 0)
include hparts hm

/-- The text of a finite number other than zero. -/
theorem text_of_finite :
    text x = (if negative = true then "-" else "") ++ Layout.script.sizeText m e := by
  rw [text, hparts]
  exact if_neg hm

theorem exponent_mem_text_iff :
    'e' ∈ (text x).toList ↔ 'e' ∈ (Layout.script.sizeText m e).toList := by
  rw [text_of_finite hparts hm, String.toList_append, List.mem_append]
  cases negative <;> simp

/-- The text as a key of a finite number other than zero. -/
theorem keyText_of_finite :
    keyText x = (if negative = true then "-" else "") ++
      if hasNoFraction m e = true ∧ wholePart m e < 10 ^ 21
      then toString (min (wholePart m e) (2 ^ 63 - 1)) else Layout.key.sizeText m e := by
  rw [keyText, hparts]
  dsimp only
  by_cases hcond : hasNoFraction m e = true ∧ wholePart m e < Nat.pow 10 21
  · have hsize : wholePart m e ≠ 0 := fun hzero => hm (mantissa_of_wholePart hcond.1 hzero)
    rw [if_pos hcond, if_neg hsize]
    exact append_left_inj.mpr (if_pos hcond).symm
  · rw [if_neg hcond]
    exact append_left_inj.mpr (if_neg hcond).symm

theorem isExact_iff (hwhole : hasNoFraction m e = true) {n : Int} (hn : truncated? x = some n) :
    IsExact x n ↔ wholePart m e < 2 ^ 63 ∧
      Layout.script.sizeText m e = toString (wholePart m e) := by
  have hpos : 0 < wholePart m e :=
    Nat.pos_of_ne_zero fun hzero => hm (mantissa_of_wholePart hwhole hzero)
  rw [truncated?, hparts] at hn
  rw [IsExact, text_of_finite hparts hm, ← Option.some.inj hn]
  cases negative with
  | false =>
    rw [if_neg Bool.false_ne_true, if_neg Bool.false_ne_true, Int.natAbs_natCast,
      String.empty_append]
    rfl
  | true =>
    rw [if_pos rfl, if_pos rfl, Int.natAbs_neg, Int.natAbs_natCast, toString_neg hpos,
      append_left_inj]

end Finite

/-- **The text of a finite number as a key is the text that it converts to** exactly if that has no
exponent and, for a whole number, all digits. -/
theorem keyText_eq_text_iff (hx : x.isFinite = true) :
    keyText x = text x ↔ 'e' ∉ (text x).toList ∧
      ∀ n, isWhole x = true → truncated? x = some n → IsExact x n := by
  obtain ⟨negative, m, e, hparts⟩ := exists_finite hx
  by_cases hm : m = 0
  · subst hm
    obtain ⟨hkey, htext, hzero⟩ := texts_of_zero hparts
    rw [hkey, htext, hzero]
    refine iff_of_true rfl ⟨by decide, ?_⟩
    rintro n - ⟨⟩
    exact ⟨by decide, htext⟩
  obtain ⟨hbound, -⟩ := range_of_finite hparts
  have hwhole : isWhole x = hasNoFraction m e := by rw [isWhole, hparts]
  obtain ⟨n, hn⟩ : ∃ n, truncated? x = some n := by
    rw [truncated?, hparts]
    exact ⟨_, rfl⟩
  rw [keyText_of_finite hparts hm, text_of_finite hparts hm, append_left_inj,
    ← text_of_finite hparts hm, exponent_mem_text_iff hparts hm, hwhole]
  split
  · next hcond =>
    obtain ⟨hfraction, -⟩ := hcond
    constructor
    · intro heq
      have hfits : wholePart m e < 2 ^ 63 := by
        by_contra hlarge
        rw [Nat.min_eq_right (by omega)] at heq
        exact sizeText_ne_greatest hfraction rfl hbound (not_lt.mp hlarge) heq.symm
      rw [Nat.min_eq_left (by omega)] at heq
      refine ⟨heq ▸ exponent_not_mem_toString _, fun n hfraction hn => ?_⟩
      exact (isExact_iff hparts hm hfraction hn).mpr ⟨hfits, heq.symm⟩
    · rintro ⟨-, hexact⟩
      obtain ⟨hfits, heq⟩ := (isExact_iff hparts hm hfraction hn).mp (hexact n hfraction hn)
      rw [Nat.min_eq_left (by omega), heq]
  · next hcond =>
    rw [key_eq_script_iff]
    refine (and_iff_left_of_imp fun hnot n hfraction _ => ?_).symm
    have hlarge : 10 ^ 21 ≤ wholePart m e := not_lt.mp fun hlt => hcond ⟨hfraction, hlt⟩
    exact absurd (exponent_mem_of_large hfraction rfl hbound hlarge) hnot

/-- Whole numbers of at most fifty-three bits are written with all their digits. -/
theorem isExact_of_small {n : Int} (hwhole : isWhole x = true) (hn : truncated? x = some n)
    (hlt : n.natAbs < 2 ^ 53) : IsExact x n := by
  obtain ⟨negative, m, e, hparts⟩ : ∃ negative m e, Binary.ofFloat x = .finite negative m e := by
    rw [isWhole] at hwhole
    split at hwhole
    · next negative m e hparts => exact ⟨negative, m, e, hparts⟩
    · cases hwhole
  by_cases hm : m = 0
  · subst hm
    obtain ⟨-, htext, hzero⟩ := texts_of_zero hparts
    rw [hzero] at hn
    cases hn
    exact ⟨by decide, htext⟩
  obtain ⟨hbound, -, -, hrange⟩ := range_of_finite hparts
  have hfraction : hasNoFraction m e = true := by rwa [isWhole, hparts] at hwhole
  have hsize : wholePart m e = n.natAbs := by
    rw [truncated?, hparts] at hn
    rw [← Option.some.inj hn]
    cases negative <;> simp
  have hpos : 0 < wholePart m e :=
    Nat.pos_of_ne_zero fun hzero => hm (mantissa_of_wholePart hfraction hzero)
  refine (isExact_iff hparts hm hfraction hn).mpr ⟨by omega, ?_⟩
  exact sizeText_exact hfraction rfl hbound hpos (hsize ▸ hlt) hrange

end Doctest.Number
