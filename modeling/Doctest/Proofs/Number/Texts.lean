import Mathlib
import Doctest.Proofs.Number.Numerals

/-!
# Texts that stand for numbers

A text without blanks that stands for a number is made of letters, digits, points and signs. Behind
a hexadecimal mark it is a sign or none and digits, the number of which fits into a word.
-/

namespace Doctest.Number

variable {c : Char} {s digits : List Char} {x : Float}

/-! ### Digits up to a bound -/

/-- Further digits make a number no smaller. -/
theorem le_foldl_digits {base : Nat} (hbase : 0 < base) (init : Nat) (digits : List Char) :
    init ≤ digits.foldl (fun n c => n * base + digitValue c) init := by
  induction digits generalizing init with
  | nil => exact le_rfl
  | cons c digits ih =>
    calc init
      _ ≤ init * base := Nat.le_mul_of_pos_right init hbase
      _ ≤ init * base + digitValue c := Nat.le_add_right _ _
      _ ≤ digits.foldl (fun n c => n * base + digitValue c) (init * base + digitValue c) := ih _

/-- Digits are read exactly if the number that they write is below the bound. -/
theorem ofDigitsBelow?_eq {base bound : Nat} (hbase : 0 < base) (hbound : 0 < bound)
    (digits : List Char) :
    ofDigitsBelow? base bound digits =
      if ofDigits base digits < bound then some (ofDigits base digits) else none := by
  have hread (init : Nat) (hinit : init < bound) :
      digits.foldlM (fun n c => if n * base + digitValue c < bound
        then some (n * base + digitValue c) else none) init =
      if digits.foldl (fun n c => n * base + digitValue c) init < bound
        then some (digits.foldl (fun n c => n * base + digitValue c) init) else none := by
    induction digits generalizing init with
    | nil => exact (if_pos hinit).symm
    | cons c digits ih =>
      rw [List.foldlM_cons, List.foldl_cons]
      by_cases hnext : init * base + digitValue c < bound
      · rw [if_pos hnext]
        exact ih _ hnext
      · have hle := le_foldl_digits hbase (init * base + digitValue c) digits
        rw [if_neg hnext, if_neg fun hlast => hnext (hle.trans_lt hlast)]
        rfl
  exact hread 0 hbound

/-! ### Hexadecimal numbers -/

/-- A text is a hexadecimal mark and what stands behind it. -/
def Marked (s rest : List Char) : Prop :=
  s = '0' :: 'x' :: rest ∨ s = '0' :: 'X' :: rest

/-- Behind a hexadecimal mark there are the digits of a number that is too large for a word with a
sign. -/
def Overlong (s : List Char) : Prop :=
  ∃ digits, Marked s digits ∧ digits ≠ [] ∧ (∀ c ∈ digits, isHexDigit c = true) ∧
    2 ^ 63 ≤ ofDigits 16 digits

theorem ofTrimmed?_of_marked (h : Marked s digits) : ofTrimmed? s = ofHexText? digits := by
  rcases h with rfl | rfl <;> rfl

/-- A mark tells what stands behind it. -/
theorem Marked.unique {rest : List Char} (h : Marked s digits) (h' : Marked s rest) :
    digits = rest := by
  rcases h with rfl | rfl <;> rcases h' with h' | h' <;> cases h' <;> rfl

/-- A sign is at the front of a text. -/
def HasSign (s : List Char) : Prop :=
  s.head? = some '-' ∨ s.head? = some '+'

theorem signed_eq (h : ¬ HasSign s) : signed s = (false, s) := by
  rw [signed.eq_def]
  split
  · exact absurd (.inl rfl) h
  · exact absurd (.inr rfl) h
  · rfl

theorem not_hasSign {p : Char → Bool} (h : ∀ c ∈ s.head?, p c = true) (hminus : p '-' = false)
    (hplus : p '+' = false) : ¬ HasSign s := by
  rintro (hsign | hsign)
  · exact ne_of_holds (h _ hsign) hminus rfl
  · exact ne_of_holds (h _ hsign) hplus rfl

theorem not_hasSign_of_hexDigit (h : ∀ c ∈ digits, isHexDigit c = true) : ¬ HasSign digits :=
  not_hasSign (fun c hc => h c (List.mem_of_mem_head? hc)) rfl rfl

/-- A text converts as the digits of a hexadecimal number only if it is digits with a sign or
without one. -/
theorem hexDigits_of_ofHexText? (h : ofHexText? s = some x) :
    (signed s).2 ≠ [] ∧ ∀ c ∈ (signed s).2, isHexDigit c = true := by
  rw [ofHexText?] at h
  dsimp only at h
  split at h
  · cases h
  · next hdigits =>
    rw [Bool.or_eq_true, not_or] at hdigits
    exact ⟨by simpa using hdigits.1, by simpa using hdigits.2⟩

/-- Hexadecimal digits without a sign convert to their number if it fits into a word with a sign. -/
theorem ofHexText?_of_hexDigit (hsome : digits ≠ []) (h : ∀ c ∈ digits, isHexDigit c = true) :
    ofHexText? digits =
      if ofDigits 16 digits < 2 ^ 63 then some (Float.ofNat (ofDigits 16 digits)) else none := by
  have hread : (digits.isEmpty || !digits.all isHexDigit) = false := by
    rw [List.all_eq_true.mpr h]
    simpa using hsome
  rw [ofHexText?, signed_eq (not_hasSign_of_hexDigit h)]
  dsimp only
  rw [hread, if_neg Bool.false_ne_true, if_neg Bool.false_ne_true,
    ofDigitsBelow?_eq (by decide) (by decide)]
  by_cases hfits : ofDigits 16 digits < 2 ^ 63
  · have hbelow : ofDigits 16 digits < Nat.pow 2 63 := hfits
    rw [if_pos hbelow, if_pos hfits]
    rfl
  · have hbeyond : ¬ ofDigits 16 digits < Nat.pow 2 63 := hfits
    rw [if_neg hbeyond, if_neg hfits]
    rfl

/-! ### Decimal numbers -/

/-- Where a digit or a point comes first, and no hexadecimal mark, a text converts as a decimal. -/
theorem ofTrimmed?_eq_ofDecimalText? (hc : c.isDigit = true ∨ c = '.')
    (hmark : ∀ rest, ¬ Marked (c :: s) rest) :
    ofTrimmed? (c :: s) = ofDecimalText? (c :: s) := by
  have hne {d : Char} (hd : d.isDigit = false) (hpoint : d ≠ '.') : c ≠ d := by
    rintro rfl
    rcases hc with hdigit | rfl
    · rw [hd] at hdigit
      cases hdigit
    · exact hpoint rfl
  have hsign : ¬ HasSign (c :: s) := by
    rintro (hsign | hsign)
    · exact hne (by decide) (by decide) (Option.some.inj hsign)
    · exact hne (by decide) (by decide) (Option.some.inj hsign)
  have hsize : c :: s ≠ "Infinity".toList := by
    intro heq
    exact hne (d := 'I') (by decide) (by decide) (List.cons.inj heq).1
  rw [ofTrimmed?.eq_def]
  split
  · next heq => cases heq
  · next rest heq => exact absurd (.inl heq) (hmark rest)
  · next rest heq => exact absurd (.inr heq) (hmark rest)
  · rw [signed_eq hsign]
    exact if_neg hsize

/-- Digits behind a point are taken with the point. -/
theorem afterPoint_of_point (s : List Char) :
    afterPoint ('.' :: s) = (s.takeWhile Char.isDigit, s.dropWhile Char.isDigit) :=
  rfl

theorem afterPoint_eq (h : s.head? ≠ some '.') : afterPoint s = ([], s) := by
  rw [afterPoint.eq_def]
  split
  · exact absurd rfl h
  · rfl

/-! ### Characters -/

/-- The characters that numbers are written with. -/
def isNumeric (c : Char) : Bool :=
  c.isAlphanum || c = '.' || c = '+' || c = '-'

theorem isNumeric_iff :
    isNumeric c = true ↔ (48 ≤ c.toNat ∧ c.toNat ≤ 57) ∨ (65 ≤ c.toNat ∧ c.toNat ≤ 90) ∨
      (97 ≤ c.toNat ∧ c.toNat ≤ 122) ∨ c = '.' ∨ c = '+' ∨ c = '-' := by
  simp only [isNumeric, Char.isAlphanum, Char.isAlpha, Char.isUpper, Char.isLower, Char.isDigit,
    Bool.or_eq_true, Bool.and_eq_true, decide_eq_true_eq, UInt32.le_iff_toNat_le, ge_iff_le,
    Char.toNat_val]
  tauto

theorem isHexDigit_iff :
    isHexDigit c = true ↔ (48 ≤ c.toNat ∧ c.toNat ≤ 57) ∨ (97 ≤ c.toNat ∧ c.toNat ≤ 102) ∨
      (65 ≤ c.toNat ∧ c.toNat ≤ 70) := by
  simp only [isHexDigit, Char.le_def, UInt32.le_iff_toNat_le, or_assoc, Bool.or_eq_true,
    Bool.and_eq_true, decide_eq_true_eq, Char.toNat_val, Char.reduceVal, UInt32.reduceToNat]

theorem isNumeric_of_isDigit (h : c.isDigit = true) : isNumeric c = true :=
  isNumeric_iff.mpr (.inl (Char.isDigit_iff_toNat.mp h))

theorem isNumeric_of_isHexDigit (h : isHexDigit c = true) : isNumeric c = true := by
  rw [isHexDigit_iff] at h
  rw [isNumeric_iff]
  omega

/-- Such a character is no blank. -/
theorem isBlank_of_isNumeric (h : isNumeric c = true) : Text.isBlank c = false := by
  rw [isNumeric_iff] at h
  rcases h with h | h | h | rfl | rfl | rfl
  case inr.inr.inr.inl | inr.inr.inr.inr.inl | inr.inr.inr.inr.inr => rfl
  all_goals
    apply Bool.eq_false_iff.mpr
    intro hblank
    simp only [Text.isBlank, Bool.or_eq_true, Bool.and_eq_true, decide_eq_true_eq,
      beq_iff_eq] at hblank
    omega

theorem isNumeric_of_signed (h : ∀ c ∈ (signed s).2, isNumeric c = true) :
    ∀ c ∈ s, isNumeric c = true := by
  rw [signed.eq_def] at h
  split at h
  · exact List.forall_mem_cons.mpr ⟨by decide, h⟩
  · exact List.forall_mem_cons.mpr ⟨by decide, h⟩
  · exact h

theorem isNumeric_of_afterPoint (h : ∀ c ∈ (afterPoint s).2, isNumeric c = true) :
    ∀ c ∈ s, isNumeric c = true := by
  by_cases hpoint : s.head? = some '.'
  · obtain ⟨rest, rfl⟩ := List.head?_eq_some_iff.mp hpoint
    rw [afterPoint_of_point] at h
    rw [← List.takeWhile_append_dropWhile (p := Char.isDigit) (l := rest)]
    refine List.forall_mem_cons.mpr ⟨by decide, List.forall_mem_append.mpr ⟨fun c hc => ?_, h⟩⟩
    exact isNumeric_of_isDigit (List.mem_takeWhile_imp hc)
  · rwa [afterPoint_eq hpoint] at h

/-- An exponent that takes a whole text is made of such characters. -/
theorem isNumeric_of_exponent? {exponent : Int} (h : exponent? s = some (exponent, s.length)) :
    ∀ c ∈ s, isNumeric c = true := by
  cases s with
  | nil => nofun
  | cons c s =>
    rw [exponent?] at h
    split at h
    · next hmark =>
      dsimp only at h
      split at h
      · cases h
      -- The sign and the digits behind the mark are all there is.
      · have hcount := congrArg Prod.snd (Option.some.inj h)
        generalize hsign : s.takeWhile (fun d => d = '+' ∨ d = '-') = sign at hcount
        have hdigits : ∀ d ∈ s.drop sign.length, d.isDigit = true := by
          have hall : (s.drop sign.length).takeWhile Char.isDigit = s.drop sign.length := by
            refine (List.takeWhile_prefix _).eq_of_length ?_
            rw [List.length_drop]
            rw [List.length_cons] at hcount
            omega
          exact List.takeWhile_eq_self_iff.mp hall
        have hsigns : ∀ d ∈ sign, d = '+' ∨ d = '-' := by
          rw [← hsign]
          intro d hd
          simpa using List.mem_takeWhile_imp hd
        have hsplit : sign ++ s.drop sign.length = s := by
          rw [← hsign]
          exact (List.prefix_iff_eq_append.mp (List.takeWhile_prefix _))
        rw [← hsplit]
        refine List.forall_mem_cons.mpr ⟨?_, List.forall_mem_append.mpr ⟨fun d hd => ?_,
          fun d hd => isNumeric_of_isDigit (hdigits d hd)⟩⟩
        · rcases hmark with rfl | rfl <;> decide
        · rcases hsigns d hd with rfl | rfl <;> decide
    · cases h

theorem isNumeric_of_ofDecimalText? (h : ofDecimalText? s = some x) :
    ∀ c ∈ s, isNumeric c = true := by
  apply isNumeric_of_signed
  rw [ofDecimalText?_eq] at h
  dsimp only at h
  have hsplit := List.prefix_iff_eq_append.mp
    (List.takeWhile_prefix Char.isDigit : (signed s).2.takeWhile Char.isDigit <+: (signed s).2)
  rw [← hsplit]
  refine List.forall_mem_append.mpr
    ⟨fun c hc => isNumeric_of_isDigit (List.mem_takeWhile_imp hc), isNumeric_of_afterPoint ?_⟩
  split at h
  · cases h
  split at h
  · next hend =>
    rw [List.isEmpty_iff.mp hend]
    nofun
  split at h
  · next exponent count hexponent =>
    split at h
    · next hcount => exact isNumeric_of_exponent? (hcount ▸ hexponent)
    · cases h
  · cases h

/-- **A text that stands for a number is made of letters, digits, points and signs.** -/
theorem isNumeric_of_ofTrimmed? (h : ofTrimmed? s = some x) : ∀ c ∈ s, isNumeric c = true := by
  have hmarked {rest : List Char} (hrest : ofHexText? rest = some x) :
      ∀ c ∈ rest, isNumeric c = true :=
    isNumeric_of_signed fun c hc =>
      isNumeric_of_isHexDigit ((hexDigits_of_ofHexText? hrest).2 c hc)
  rw [ofTrimmed?.eq_def] at h
  split at h
  · exact List.forall_mem_nil _
  · exact List.forall_mem_cons.mpr ⟨by decide, List.forall_mem_cons.mpr ⟨by decide, hmarked h⟩⟩
  · exact List.forall_mem_cons.mpr ⟨by decide, List.forall_mem_cons.mpr ⟨by decide, hmarked h⟩⟩
  · dsimp only at h
    split at h
    · next hinfinite =>
      apply isNumeric_of_signed
      rw [hinfinite]
      exact List.all_eq_true.mp (by decide)
    · exact isNumeric_of_ofDecimalText? h

end Doctest.Number
