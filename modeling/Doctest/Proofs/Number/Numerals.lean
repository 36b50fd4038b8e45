import Doctest.Number.Layout
import Doctest.Number.Reading
import Doctest.Proofs.Number.Digits
import Doctest.Proofs.Text.Words

/-!
# Numerals and their texts

A numeral is written as digits, a point with digits behind it if there are any, and an exponent
with a sign if there is one. Such a text converts to the value of the numeral, and the size of a
number is written in that way.
-/

namespace Doctest.Number

/-- The digits behind a point, with the point; nothing if there are none. -/
def pointed : List Char → List Char
  | [] => []
  | c :: digits => '.' :: c :: digits

/-- A text is how an exponent is written; zero goes without a text. -/
inductive IsExponent : List Char → Int → Prop
  | none : IsExponent [] 0
  | positive {digits : List Char} (hsome : digits ≠ [])
    (hdigits : ∀ c ∈ digits, c.isDigit = true) :
    IsExponent ('e' :: '+' :: digits) (exponentValue digits)
  | negative {digits : List Char} (hsome : digits ≠ [])
    (hdigits : ∀ c ∈ digits, c.isDigit = true) :
    IsExponent ('e' :: '-' :: digits) (-exponentValue digits)

/-- A text is how a numeral is written. -/
structure Writes (s : List Char) (n : Numeral) : Prop where
  nonempty : n.whole ≠ []
  whole : ∀ c ∈ n.whole, c.isDigit = true
  fraction : ∀ c ∈ n.fraction, c.isDigit = true
  text : ∃ tail, IsExponent tail n.exponent ∧ s = n.whole ++ (pointed n.fraction ++ tail)

/-- A numeral does not go on behind a text that begins so. -/
structure EndsNumeral (rest : List Char) : Prop where
  digit : ∀ c ∈ rest.head?, c.isDigit = false
  point : rest.head? ≠ some '.'
  exponent : exponent? rest = none

theorem endsNumeral_nil : EndsNumeral [] :=
  ⟨nofun, nofun, rfl⟩

variable {s tail rest digits : List Char} {n : Numeral} {e : Int}

/-! ### Parts of numerals -/

/-- An exponent with a sign is read up to where its digits end. -/
theorem exponent?_sign {sign : Char} (hsign : sign = '+' ∨ sign = '-') (hsome : digits ≠ [])
    (hdigits : ∀ c ∈ digits, c.isDigit = true) (hrest : ∀ c ∈ rest.head?, c.isDigit = false) :
    exponent? ('e' :: sign :: (digits ++ rest)) =
      some (if sign = '-' then -(exponentValue digits : Int) else exponentValue digits,
        digits.length + 2) := by
  have hmark : (sign :: (digits ++ rest)).takeWhile (fun d => d = '+' ∨ d = '-') = [sign] := by
    obtain ⟨c, more, rfl⟩ := List.exists_cons_of_ne_nil hsome
    have hdigit := hdigits c List.mem_cons_self
    have hc : ¬ (c = '+' ∨ c = '-') := by
      rintro (rfl | rfl) <;> cases hdigit
    rw [List.takeWhile_cons_of_pos (by simpa using hsign), List.cons_append,
      List.takeWhile_cons_of_neg (by simpa using hc)]
  have hempty : digits.isEmpty = false := by
    cases digits with
    | nil => exact absurd rfl hsome
    | cons => rfl
  have hdrop : (sign :: (digits ++ rest)).drop [sign].length = digits ++ rest := rfl
  rw [exponent?, if_pos (.inl rfl), hmark]
  dsimp only
  rw [hdrop, takeWhile_until hdigits hrest, hempty, if_neg (by simp)]
  rcases hsign with rfl | rfl <;> simp <;> omega

theorem exponent?_append (h : IsExponent tail e) (hrest : EndsNumeral rest) :
    exponent? (tail ++ rest) = if tail = [] then none else some (e, tail.length) := by
  cases h with
  | none => exact hrest.exponent
  | positive hsome hdigits => exact exponent?_sign (.inl rfl) hsome hdigits hrest.digit
  | negative hsome hdigits => exact exponent?_sign (.inr rfl) hsome hdigits hrest.digit

/-- Neither a digit nor a point stands behind the digits of a numeral. -/
theorem head?_tail (h : IsExponent tail e) (hrest : EndsNumeral rest) :
    (∀ c ∈ (tail ++ rest).head?, c.isDigit = false) ∧ (tail ++ rest).head? ≠ some '.' := by
  cases h with
  | none => exact ⟨hrest.digit, hrest.point⟩
  | positive | negative =>
    refine ⟨?_, nofun⟩
    rintro _ ⟨⟩
    rfl

theorem head?_pointed (fraction : List Char) (htail : ∀ c ∈ tail.head?, c.isDigit = false) :
    ∀ c ∈ (pointed fraction ++ tail).head?, c.isDigit = false := by
  cases fraction with
  | nil => exact htail
  | cons d fraction =>
    rintro _ ⟨⟩
    rfl

/-! ### Numbers of texts -/

/-- The digits after a point at the front of a text, and what follows them. -/
def afterPoint : List Char → List Char × List Char
  | '.' :: s => (s.takeWhile Char.isDigit, s.dropWhile Char.isDigit)
  | s => ([], s)

theorem afterPoint_pointed {fraction : List Char} (hfraction : ∀ c ∈ fraction, c.isDigit = true)
    (hdigit : ∀ c ∈ tail.head?, c.isDigit = false) (hpoint : tail.head? ≠ some '.') :
    afterPoint (pointed fraction ++ tail) = (fraction, tail) := by
  cases fraction with
  | nil =>
    rw [pointed, List.nil_append, afterPoint.eq_def]
    split
    · exact absurd rfl hpoint
    · rfl
  | cons d fraction =>
    change ((d :: fraction ++ tail).takeWhile Char.isDigit,
      (d :: fraction ++ tail).dropWhile Char.isDigit) = _
    rw [takeWhile_until hfraction hdigit, dropWhile_until hfraction hdigit]

theorem ofDecimalText?_eq (s : List Char) :
    ofDecimalText? s =
      let whole := (signed s).2.takeWhile Char.isDigit
      let parts := afterPoint ((signed s).2.drop whole.length)
      if whole.isEmpty && parts.1.isEmpty then none
      else if parts.2.isEmpty then
        some (withSign (signed s).1 (Numeral.value ⟨whole, parts.1, 0⟩))
      else
        match exponent? parts.2 with
        | some (exponent, count) =>
          if count = parts.2.length then
            some (withSign (signed s).1 (Numeral.value ⟨whole, parts.1, exponent⟩))
          else none
        | none => none :=
  rfl

/-- A numeral with a minus before it or without one converts to its value. -/
theorem ofDecimalText?_writes (h : Writes s n) :
    ofDecimalText? s = some n.value ∧ ofDecimalText? ('-' :: s) = some (-n.value) := by
  obtain ⟨whole, fraction, exponent⟩ := n
  obtain ⟨hsome, hwhole, hfraction, tail, htail, rfl⟩ := h
  dsimp only at *
  obtain ⟨hdigit, hpoint⟩ := head?_tail htail endsNumeral_nil
  rw [List.append_nil] at hdigit hpoint
  obtain ⟨c, more, rfl⟩ := List.exists_cons_of_ne_nil hsome
  have hfirst := hwhole c List.mem_cons_self
  -- What is left of a text without its sign does not depend on the sign.
  have hbody (negative : Bool) (t : List Char)
      (ht : signed t = (negative, c :: more ++ (pointed fraction ++ tail))) :
      ofDecimalText? t =
        some (withSign negative (Numeral.value ⟨c :: more, fraction, exponent⟩)) := by
    have htake : (c :: more ++ (pointed fraction ++ tail)).takeWhile Char.isDigit = c :: more :=
      takeWhile_until hwhole (head?_pointed fraction hdigit)
    rw [ofDecimalText?_eq, ht]
    dsimp only
    rw [htake, List.drop_left, afterPoint_pointed hfraction hdigit hpoint]
    rw [List.isEmpty_cons, Bool.false_and, if_neg Bool.false_ne_true]
    have hexponent := exponent?_append htail endsNumeral_nil
    rw [List.append_nil] at hexponent
    cases htail with
    | none => rfl
    | positive | negative =>
      rw [hexponent, List.isEmpty_cons, if_neg Bool.false_ne_true, if_neg (List.cons_ne_nil _ _)]
      dsimp only
      rw [if_pos rfl]
  refine ⟨hbody false _ ?_, hbody true _ rfl⟩
  rw [List.cons_append, signed.eq_def]
  split
  · next heq => cases heq; cases hfirst
  · next heq => cases heq; cases hfirst
  · rfl

theorem isBlank_of_isDigit {c : Char} (h : c.isDigit = true) : Text.isBlank c = false := by
  have hrange : 48 ≤ c.toNat ∧ c.toNat ≤ 57 := Char.isDigit_iff_toNat.mp h
  apply Bool.eq_false_iff.mpr
  intro hblank
  simp only [Text.isBlank, Bool.or_eq_true, Bool.and_eq_true, decide_eq_true_eq,
    beq_iff_eq] at hblank
  omega

/-- No blank stands in a numeral. -/
theorem Writes.isBlank_eq_false (h : Writes s n) : ∀ c ∈ s, Text.isBlank c = false := by
  obtain ⟨whole, fraction, exponent⟩ := n
  obtain ⟨hsome, hwhole, hfraction, tail, htail, rfl⟩ := h
  have hpointed : ∀ c ∈ pointed fraction, Text.isBlank c = false := by
    cases fraction with
    | nil => nofun
    | cons d fraction =>
      exact List.forall_mem_cons.mpr
        ⟨by decide, fun c hmem => isBlank_of_isDigit (hfraction c hmem)⟩
  have hexponent : ∀ c ∈ tail, Text.isBlank c = false := by
    cases htail with
    | none => nofun
    | positive _ hdigits | negative _ hdigits =>
      exact List.forall_mem_cons.mpr ⟨by decide, List.forall_mem_cons.mpr
        ⟨by decide, fun c hmem => isBlank_of_isDigit (hdigits c hmem)⟩⟩
  exact List.forall_mem_append.mpr ⟨fun c hmem => isBlank_of_isDigit (hwhole c hmem),
    List.forall_mem_append.mpr ⟨hpointed, hexponent⟩⟩

/-- A numeral begins with a digit, and no mark of a hexadecimal number stands behind that. -/
theorem Writes.exists_digit (h : Writes s n) :
    ∃ c more, s = c :: more ∧ c.isDigit = true ∧ more.head? ≠ some 'x' ∧ more.head? ≠ some 'X' := by
  obtain ⟨whole, fraction, exponent⟩ := n
  obtain ⟨hsome, hwhole, hfraction, tail, htail, rfl⟩ := h
  obtain ⟨c, whole, rfl⟩ := List.exists_cons_of_ne_nil hsome
  refine ⟨c, whole ++ (pointed fraction ++ tail), rfl, hwhole c List.mem_cons_self, ?_⟩
  cases whole with
  | cons d whole =>
    have hd := hwhole d (List.mem_cons_of_mem c List.mem_cons_self)
    constructor
    · exact fun heq => ne_of_holds (d := 'x') hd rfl (Option.some.inj heq)
    · exact fun heq => ne_of_holds (d := 'X') hd rfl (Option.some.inj heq)
  | nil =>
    cases fraction with
    | cons d fraction => exact ⟨nofun, nofun⟩
    | nil => cases htail <;> exact ⟨nofun, nofun⟩

/-- **Numerals convert to their values**, with a minus before them or without one. -/
theorem ofText_writes (h : Writes s n) : ofText s = n.value ∧ ofText ('-' :: s) = -n.value := by
  obtain ⟨hplain, hminus⟩ := ofDecimalText?_writes h
  have hblank := h.isBlank_eq_false
  obtain ⟨c, more, rfl, hc, hx, hX⟩ := h.exists_digit
  have hsize : c :: more ≠ "Infinity".toList := by
    intro heq
    rw [(List.cons.inj heq).1] at hc
    cases hc
  have hminusBlank : ∀ d ∈ '-' :: c :: more, Text.isBlank d = false :=
    List.forall_mem_cons.mpr ⟨by decide, hblank⟩
  rw [ofText, ofText, (Text.IsTrimmed.of_forall hblank).trim_eq,
    (Text.IsTrimmed.of_forall hminusBlank).trim_eq]
  constructor
  · have hsigned : signed (c :: more) = (false, c :: more) := by
      rw [signed.eq_def]
      split
      · next heq => cases heq; cases hc
      · next heq => cases heq; cases hc
      · rfl
    rw [ofTrimmed?.eq_def]
    split
    · next heq => cases heq
    · next heq => exact absurd (congrArg List.head? (List.cons.inj heq).2) hx
    · next heq => exact absurd (congrArg List.head? (List.cons.inj heq).2) hX
    · rw [hsigned]
      dsimp only
      rw [if_neg hsize, hplain, Option.getD_some]
  · have htrimmed : ofTrimmed? ('-' :: c :: more) = ofDecimalText? ('-' :: c :: more) := by
      have hsigned : signed ('-' :: c :: more) = (true, c :: more) := rfl
      change (if (signed ('-' :: c :: more)).2 = "Infinity".toList then _ else _) = _
      rw [hsigned, if_neg hsize]
    rw [htrimmed, hminus, Option.getD_some]

/-! ### The numerals of numbers -/

theorem toList_toString (n : Nat) : (toString n).toList = Nat.toDigits 10 n := by
  rw [Nat.toString_eq_repr, Nat.toList_repr]

theorem positionalText_writes {point : Int} (hsome : digits ≠ [])
    (hdigits : ∀ c ∈ digits, c.isDigit = true) :
    ∃ n, Writes (positionalText "" digits point).toList n := by
  have hzeros (count : Nat) : ∀ c ∈ List.replicate count '0', c.isDigit = true := by
    intro c hmem
    rw [List.eq_of_mem_replicate hmem]
    rfl
  rw [positionalText]
  split
  · obtain ⟨c, more, hcons⟩ := List.exists_cons_of_ne_nil
      (List.append_ne_nil_of_right_ne_nil (List.replicate (-point).toNat '0') hsome)
    refine ⟨⟨['0'], List.replicate (-point).toNat '0' ++ digits, 0⟩, List.cons_ne_nil _ _,
      hzeros 1, ?_, [], .none, ?_⟩
    · intro c hmem
      exact (List.mem_append.mp hmem).elim (hzeros _ c) (hdigits c)
    · simp only [String.toList_append, String.toList_ofList, List.append_nil, hcons]
      rfl
  split
  · refine ⟨⟨digits ++ List.replicate (point.toNat - digits.length) '0', [], 0⟩,
      List.append_ne_nil_of_left_ne_nil hsome _, ?_, nofun, [], .none, ?_⟩
    · intro c hmem
      exact (List.mem_append.mp hmem).elim (hdigits c) (hzeros _ c)
    · rw [String.toList_append, String.toList_ofList]
      rfl
  · next hpoint hshort =>
    have hlength : point.toNat < digits.length := by omega
    obtain ⟨c, more, hcons⟩ := List.exists_cons_of_ne_nil
      (List.ne_nil_of_length_pos (by rw [List.length_drop]; omega) :
        digits.drop point.toNat ≠ [])
    refine ⟨⟨digits.take point.toNat, digits.drop point.toNat, 0⟩, ?_,
      fun c hmem => hdigits c (List.mem_of_mem_take hmem),
      fun c hmem => hdigits c (List.mem_of_mem_drop hmem), [], .none, ?_⟩
    · apply List.ne_nil_of_length_pos
      rw [List.length_take]
      omega
    · simp only [String.toList_append, String.toList_ofList, List.append_nil, List.append_assoc,
        hcons]
      rfl

theorem scientificText_writes {point : Int} (hsome : digits ≠ [])
    (hdigits : ∀ c ∈ digits, c.isDigit = true) :
    ∃ n, Writes (scientificText "e+" digits point).toList n := by
  have hpower : ∃ tail exponent, IsExponent tail exponent ∧
      (if point - 1 < 0 then "e-" ++ toString (point - 1).natAbs
        else "e+" ++ toString (point - 1).natAbs).toList = tail := by
    split
    · refine ⟨_, _, .negative Nat.toDigits_ne_nil (isDigit_toDigits (point - 1).natAbs), ?_⟩
      rw [String.toList_append, toList_toString]
      rfl
    · refine ⟨_, _, .positive Nat.toDigits_ne_nil (isDigit_toDigits (point - 1).natAbs), ?_⟩
      rw [String.toList_append, toList_toString]
      rfl
  obtain ⟨tail, exponent, htail, hpower⟩ := hpower
  unfold scientificText
  dsimp only
  rw [String.toList_append, hpower]
  match digits, hsome, hdigits with
  | [d], _, hdigits =>
    refine ⟨⟨[d], [], exponent⟩, List.cons_ne_nil _ _, hdigits, nofun, tail, htail, ?_⟩
    dsimp only
    rw [String.toList_ofList]
    rfl
  | d :: c :: more, _, hdigits =>
    obtain ⟨hd, hmore⟩ := List.forall_mem_cons.mp hdigits
    refine ⟨⟨[d], c :: more, exponent⟩, List.cons_ne_nil _ _,
      List.forall_mem_cons.mpr ⟨hd, nofun⟩, hmore, tail, htail, ?_⟩
    dsimp only
    rw [String.toList_ofList]
    rfl

/-- The size of a number is written as a numeral. -/
theorem sizeText_writes (mantissa : Nat) (exponent : Int) :
    ∃ n, Writes (Layout.script.sizeText mantissa exponent).toList n := by
  unfold Layout.sizeText
  dsimp only
  split
  · exact positionalText_writes Nat.toDigits_ne_nil (isDigit_toDigits _)
  · exact scientificText_writes Nat.toDigits_ne_nil (isDigit_toDigits _)

end Doctest.Number
