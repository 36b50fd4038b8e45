import Doctest.Proofs.Script.Scanning

/-!
# Tokens by themselves

What stands at the front of a text is told by the characters that it takes. So a token that is cut
out of a text is one token of the same kind.
-/

namespace Doctest.Script

variable {c : Char} {s : List Char} {kind : TokenKind} {count n : Nat}

/-! ### Parts of numbers -/

theorem takeWhile_take_of_le {p : Char → Bool} (h : (s.takeWhile p).length ≤ n) :
    (s.take n).takeWhile p = s.takeWhile p := by
  rw [← List.take_takeWhile, List.take_of_length_le h]

theorem hexDigits?_take {digits : List Char} (h : hexDigits? s = some digits) :
    hexDigits? (s.take (digits.length + 1)) = some digits := by
  cases s with
  | nil => cases h
  | cons mark s =>
    rw [hexDigits?] at h
    rw [List.take_succ_cons, hexDigits?]
    split_ifs at h ⊢ with hmark
    dsimp only at h ⊢
    split_ifs at h with hsome
    cases h
    rw [takeWhile_take_of_le le_rfl, if_neg hsome]

theorem hexDigits?_take_eq_none (h : hexDigits? s = none) (n : Nat) :
    hexDigits? (s.take n) = none := by
  cases s with
  | nil => rw [List.take_nil, h]
  | cons mark s =>
    cases n with
    | zero => rfl
    | succ n =>
      rw [hexDigits?] at h
      rw [List.take_succ_cons, hexDigits?]
      split_ifs at h ⊢ with hmark
      · dsimp only at h ⊢
        split_ifs at h with hnone
        rw [← List.take_takeWhile, List.isEmpty_iff.mp hnone, List.take_nil]
        rfl
      · rfl

theorem pointDigits_take (s : List Char) (n : Nat) :
    pointDigits (s.take n) = (pointDigits s).take (n - 1) := by
  cases s with
  | nil =>
    rw [List.take_nil]
    exact List.take_nil.symm
  | cons c s =>
    cases n with
    | zero => rfl
    | succ n =>
      rw [List.take_succ_cons, Nat.add_sub_cancel]
      by_cases hc : c = '.'
      · subst hc
        exact List.take_takeWhile.symm
      · rw [pointDigits_eq_nil hc, pointDigits_eq_nil hc, List.take_nil]

/-- The parts of a numeral before its exponent are told by their own characters. -/
theorem parts_take (h : plainLength s ≤ n) :
    (s.take n).takeWhile Char.isDigit = s.takeWhile Char.isDigit ∧
      pointDigits ((s.take n).drop (s.takeWhile Char.isDigit).length) =
        pointDigits (s.drop (s.takeWhile Char.isDigit).length) := by
  unfold plainLength at h
  dsimp only at h
  have hwhole : (s.takeWhile Char.isDigit).length ≤ n := by
    split_ifs at h <;> omega
  refine ⟨takeWhile_take_of_le hwhole, ?_⟩
  rw [List.drop_take, pointDigits_take]
  split_ifs at h with hnone
  · rw [List.isEmpty_iff.mp hnone, List.take_nil]
  · exact List.take_of_length_le (by omega)

theorem plainLength_take (h : plainLength s ≤ n) : plainLength (s.take n) = plainLength s := by
  obtain ⟨hwhole, hfraction⟩ := parts_take h
  unfold plainLength
  dsimp only
  rw [hwhole, hfraction]

theorem exponent?_take {exponent : Int} (h : Number.exponent? s = some (exponent, count)) :
    Number.exponent? (s.take count) = some (exponent, count) := by
  cases s with
  | nil => cases h
  | cons c s =>
    rw [Number.exponent?] at h
    split at h
    · next hmark =>
      dsimp only at h
      split at h
      · cases h
      · next hnone =>
        obtain ⟨hexponent, hcount⟩ := Prod.mk.inj (Option.some.inj h)
        -- Behind the mark just the sign and the digits are taken.
        have hslice : (c :: s).take count =
            c :: s.take ((s.takeWhile fun d => d = '+' ∨ d = '-').length +
              ((s.drop (s.takeWhile fun d => d = '+' ∨ d = '-').length).takeWhile
                Char.isDigit).length) := by
          rw [← hcount, Nat.add_assoc, Nat.add_comm, List.take_succ_cons]
        rw [hslice, Number.exponent?, if_pos hmark]
        dsimp only
        rw [takeWhile_take_of_le (Nat.le_add_right _ _), List.drop_take, Nat.add_sub_cancel_left,
          takeWhile_take_of_le le_rfl, if_neg hnone, hexponent, hcount]
    · cases h

theorem plainLength_le_numeral (s : List Char) : plainLength s ≤ (numeral s).2 := by
  rw [numeral_eq]
  split
  · exact Nat.le_add_right _ _
  · exact le_rfl

/-- A numeral is told by its own characters. -/
theorem numeral_take (s : List Char) : numeral (s.take (numeral s).2) = numeral s := by
  have hplain := plainLength_le_numeral s
  obtain ⟨hwhole, hfraction⟩ := parts_take hplain
  rw [numeral_eq (s.take _), plainLength_take hplain, hwhole, hfraction, List.drop_take]
  conv_rhs => rw [numeral_eq]
  cases hexponent : Number.exponent? (s.drop (plainLength s)) with
  | none =>
    have hlength : (numeral s).2 = plainLength s := by
      rw [numeral_eq, hexponent]
    rw [hlength, Nat.sub_self, List.take_zero]
    rfl
  | some found =>
    obtain ⟨exponent, more⟩ := found
    have hlength : (numeral s).2 = plainLength s + more := by
      rw [numeral_eq, hexponent]
    rw [hlength, Nat.add_sub_cancel_left, exponent?_take hexponent]

theorem plainLength_pos (h : c.isDigit ∨ (c = '.' ∧ s.head?.any Char.isDigit)) :
    0 < plainLength (c :: s) ∧ (c = '.' → 1 < plainLength (c :: s)) := by
  rcases h with hdigit | ⟨rfl, hhead⟩
  · have hwhole : 0 < ((c :: s).takeWhile Char.isDigit).length := by
      rw [List.takeWhile_cons_of_pos hdigit]
      exact Nat.succ_pos _
    refine ⟨?_, fun hc => ?_⟩
    · unfold plainLength
      dsimp only
      split_ifs <;> omega
    · rw [hc] at hdigit
      cases hdigit
  · have hpoint : pointDigits ('.' :: s) ≠ [] := by
      cases s with
      | nil => cases hhead
      | cons d s =>
        have hd : d.isDigit = true := hhead
        change (d :: s).takeWhile Char.isDigit ≠ []
        rw [List.takeWhile_cons_of_pos hd]
        exact List.cons_ne_nil _ _
    have hlength : plainLength ('.' :: s) = 1 + (pointDigits ('.' :: s)).length := by
      change (if (pointDigits ('.' :: s)).isEmpty then 0 else 0 + 1 + _) = _
      rw [if_neg (by simpa using hpoint), Nat.zero_add]
      rfl
    have hsome := List.length_pos_of_ne_nil hpoint
    exact ⟨by omega, fun _ => by omega⟩

/-! ### Lexemes -/

/-- A string is told by its own characters. -/
theorem stringBody?_take {quote : Char} {body : List Char} (h : stringBody? quote s = some body) :
    stringBody? quote (s.take (body.length + 1)) = some body := by
  fun_induction stringBody? quote s generalizing body with
  | case1 | case3 | case4 | case5 => cases h
  | case2 s =>
    cases h
    rw [List.take_succ_cons, stringBody?.eq_def]
    exact if_pos rfl
  | case6 d s hfeed hquote hline ih =>
    obtain ⟨rest, hrest, rfl⟩ := Option.map_eq_some_iff.mp h
    rw [List.length_cons, List.length_cons, List.take_succ_cons, List.take_succ_cons,
      stringBody?.eq_def]
    dsimp only
    rw [if_neg hquote, if_neg hline, if_pos rfl, if_neg hfeed, ih hrest]
    rfl
  | case7 d s hquote hline hescape ih =>
    obtain ⟨rest, hrest, rfl⟩ := Option.map_eq_some_iff.mp h
    rw [List.length_cons, List.take_succ_cons, stringBody?.eq_def]
    dsimp only
    rw [if_neg hquote, if_neg hline, if_neg hescape, ih hrest]
    rfl

/-- The first that is found is found first among fewer. -/
theorem find?_eq_some_of_imp {α : Type} {p q : α → Bool} {all : List α} {a : α}
    (h : all.find? p = some a) (ha : q a = true) (himp : ∀ b, q b = true → p b = true) :
    all.find? q = some a := by
  obtain ⟨-, front, behind, rfl, hfront⟩ := List.find?_eq_some_iff_append.mp h
  refine List.find?_eq_some_iff_append.mpr ⟨ha, front, behind, rfl, fun b hmem => ?_⟩
  have hp := hfront b hmem
  cases hq : q b with
  | false => rfl
  | true =>
    rw [himp b hq] at hp
    cases hp

theorem length_of_point {kind : Option TokenKind} (hc : c = '.')
    (h : numberLexeme c s = .ok (kind, count)) : (numeral (c :: s)).2 - 1 = count := by
  subst hc
  rw [numberLexeme, if_neg (by decide)] at h
  exact congrArg Prod.snd (Except.ok.inj h)

theorem numberLexeme_take (hc : 0 < plainLength (c :: s))
    (h : numberLexeme c s = .ok (some kind, count)) :
    numberLexeme c (s.take count) = .ok (some kind, count) := by
  unfold numberLexeme at h
  split at h
  · next digits hfound =>
    obtain ⟨hzero, hdigits⟩ := Option.ite_none_right_eq_some.mp hfound
    split at h
    · next value hvalue =>
      cases h
      rw [numberLexeme, if_pos hzero, hexDigits?_take hdigits]
      dsimp only
      rw [hvalue]
    · cases h
  · next hnone =>
    have hcount : (numeral (c :: s)).2 - 1 = count := congrArg Prod.snd (Except.ok.inj h)
    have hpos := hc.trans_le (plainLength_le_numeral (c :: s))
    have hslice : c :: s.take count = (c :: s).take (numeral (c :: s)).2 := by
      rw [← List.take_succ_cons, ← hcount, Nat.sub_add_cancel hpos]
    have hstill : (if c = '0' then hexDigits? (s.take count) else none) = none := by
      split_ifs at hnone ⊢
      · exact hexDigits?_take_eq_none hnone count
      · rfl
    rw [numberLexeme, hstill]
    dsimp only
    rw [hslice, numeral_take]
    exact h

theorem stringLexeme_take (h : stringLexeme c s = .ok (some kind, count)) :
    stringLexeme c (s.take count) = .ok (some kind, count) := by
  unfold stringLexeme at h
  split at h
  · cases h
  · next body hbody =>
    split at h
    · cases h
    · next text htext =>
      cases h
      rw [stringLexeme, stringBody?_take hbody]
      dsimp only
      rw [htext]

theorem symbolLexeme_take (h : symbolLexeme c s = .ok (some kind, count)) :
    symbolLexeme c (s.take count) = .ok (some kind, count) := by
  unfold symbolLexeme at h
  split at h
  · next mark hmark =>
    cases h
    have hpos : 0 < mark.text.length := by cases mark <;> decide
    have hslice : c :: s.take (mark.text.length - 1) = (c :: s).take mark.text.length := by
      rw [← List.take_succ_cons, Nat.sub_add_cancel hpos]
    have hfound := List.find?_some hmark
    have hown := List.prefix_iff_eq_take.mp (List.isPrefixOf_iff_prefix.mp hfound)
    rw [String.length_toList] at hown
    rw [symbolLexeme, hslice, find?_eq_some_of_imp hmark]
    · rw [List.isPrefixOf_iff_prefix, ← hown]
    · intro other hother
      rw [List.isPrefixOf_iff_prefix] at hother ⊢
      exact hother.trans (List.take_prefix _ _)
  · cases h

/-- **A token is told by its own characters.** -/
theorem lexeme_take (h : lexeme c s = .ok (some kind, count)) :
    lexeme c (s.take count) = .ok (some kind, count) := by
  -- What is not ahead in the text is not ahead among its first characters.
  have hhead {d : Char} (hd : (s.take count).head? = some d) : s.head? = some d := by
    rw [List.head?_take] at hd
    exact (Option.ite_none_left_eq_some.mp hd).2
  rw [lexeme] at h ⊢
  by_cases hspacing : isSpacing c = true
  · rw [if_pos hspacing] at h
    cases h
  rw [if_neg hspacing] at h ⊢
  by_cases hfeed : c = '\n'
  · rw [if_pos hfeed] at h ⊢
    exact h
  rw [if_neg hfeed] at h ⊢
  by_cases hreturn : c = '\r' ∧ s.head? = some '\n'
  · rw [if_pos hreturn] at h
    cases h
    rw [if_pos ⟨hreturn.1, by rw [List.head?_take]; exact hreturn.2⟩]
  rw [if_neg hreturn] at h
  rw [if_neg fun hc => hreturn ⟨hc.1, hhead hc.2⟩]
  by_cases hline : c = '/' ∧ s.head? = some '/'
  · rw [if_pos hline] at h
    cases h
  rw [if_neg hline] at h
  rw [if_neg fun hc => hline ⟨hc.1, hhead hc.2⟩]
  by_cases hblock : c = '/' ∧ s.head? = some '*'
  · rw [if_pos hblock] at h
    cases h
  rw [if_neg hblock] at h
  rw [if_neg fun hc => hblock ⟨hc.1, hhead hc.2⟩]
  by_cases hnumber : c.isDigit ∨ (c = '.' ∧ s.head?.any Char.isDigit)
  · rw [if_pos hnumber] at h
    obtain ⟨hpos, hmore⟩ := plainLength_pos hnumber
    rw [if_pos, numberLexeme_take hpos h]
    refine hnumber.imp_right fun hpoint => ⟨hpoint.1, ?_⟩
    rw [List.head?_take, if_neg]
    · exact hpoint.2
    · rw [← length_of_point hpoint.1 h]
      have hmore := hmore hpoint.1
      have hlength := plainLength_le_numeral (c :: s)
      omega
  rw [if_neg hnumber] at h
  rw [if_neg]
  · by_cases hquote : c = '\x22' ∨ c = '\x27'
    · rw [if_pos hquote] at h ⊢
      exact stringLexeme_take h
    rw [if_neg hquote] at h ⊢
    by_cases hword : isWordStart c = true
    · rw [if_pos hword] at h ⊢
      cases h
      rw [List.length_cons, Nat.add_sub_cancel, takeWhile_take_of_le le_rfl]
      rfl
    · rw [if_neg hword] at h ⊢
      exact symbolLexeme_take h
  · refine fun hc => hnumber (hc.imp_right fun hpoint => ⟨hpoint.1, ?_⟩)
    cases hd : (s.take count).head? with
    | none =>
      rw [hd] at hpoint
      cases hpoint.2
    | some d =>
      rw [hhead hd, ← hd]
      exact hpoint.2

end Doctest.Script
