import Doctest.Proofs.Number.Texts
import Doctest.Proofs.Script.Spelling
import Doctest.Proofs.Script.Tiling
import Doctest.Script.Library.Call

/-!
# Number literals and the texts that convert to them

A text that is cut into one number is a literal with blanks and comments around it. It converts to
the number of the literal unless there is a comment, or the literal is hexadecimal and its number
does not fit into a word with a sign. Behind a hexadecimal mark the conversion also takes a sign,
which no literal has.
-/

namespace Doctest.Script

open Number (Marked Overlong HasSign isNumeric)

variable {c : Char} {s digits : List Char} {count : Nat} {x : Float} {kind : TokenKind}

/-! ### Numerals that are a whole text -/

theorem afterPoint_of_pointDigits (h : pointDigits s ≠ []) :
    Number.afterPoint s = (pointDigits s, s.drop (1 + (pointDigits s).length)) := by
  cases s with
  | nil => exact absurd rfl h
  | cons c s =>
    by_cases hpoint : c = '.'
    · subst hpoint
      rw [Number.afterPoint_of_point, Nat.add_comm, List.drop_succ_cons]
      exact Prod.ext rfl (drop_length_takeWhile Char.isDigit s).symm
    · exact absurd (pointDigits_eq_nil hpoint s) h

/-- Where a numeral takes a whole text, what stands behind its digits is its exponent. -/
theorem afterPoint_of_numeral (hall : (numeral s).2 = s.length) :
    Number.afterPoint (s.drop (s.takeWhile Char.isDigit).length) =
      (pointDigits (s.drop (s.takeWhile Char.isDigit).length), s.drop (plainLength s)) := by
  by_cases hfraction : pointDigits (s.drop (s.takeWhile Char.isDigit).length) = []
  · have hplain : plainLength s = (s.takeWhile Char.isDigit).length := by
      rw [plainLength, hfraction]
      rfl
    rw [hfraction, hplain]
    -- A point without digits would be left over.
    refine Number.afterPoint_eq fun hpoint => ?_
    obtain ⟨rest, hrest⟩ := List.head?_eq_some_iff.mp hpoint
    have hnone : Number.exponent? ('.' :: rest) = none := rfl
    have hlength : (s.takeWhile Char.isDigit).length = s.length := by
      rw [numeral_eq, hplain, hrest, hnone] at hall
      exact hall
    rw [hlength, List.drop_length] at hrest
    cases hrest
  · have hplain : plainLength s = (s.takeWhile Char.isDigit).length +
        (1 + (pointDigits (s.drop (s.takeWhile Char.isDigit).length)).length) := by
      rw [plainLength, if_neg (by simpa using hfraction), Nat.add_assoc]
    rw [afterPoint_of_pointDigits hfraction, List.drop_drop, ← hplain]

/-- A numeral that takes a whole text is what the text converts to as a decimal. -/
theorem ofDecimalText?_of_numeral
    (hc : c.isDigit = true ∨ (c = '.' ∧ s.head?.any Char.isDigit = true))
    (hall : (numeral (c :: s)).2 = (c :: s).length) :
    Number.ofDecimalText? (c :: s) = some (numeral (c :: s)).1.value := by
  have hpos := (plainLength_pos hc).1
  have hsign : ¬ HasSign (c :: s) := by
    have hnot : c.isDigit = true ∨ c = '.' := hc.imp_right And.left
    rintro (hsign | hsign) <;> obtain rfl := Option.some.inj hsign <;> revert hnot <;> decide
  rw [Number.ofDecimalText?_eq, Number.signed_eq hsign]
  dsimp only
  rw [afterPoint_of_numeral hall]
  have hdigits : (((c :: s).takeWhile Char.isDigit).isEmpty &&
      (pointDigits ((c :: s).drop ((c :: s).takeWhile Char.isDigit).length)).isEmpty) = false := by
    apply Bool.eq_false_iff.mpr
    intro hnone
    obtain ⟨hwhole, hfraction⟩ := Bool.and_eq_true_iff.mp hnone
    rw [plainLength, if_pos hfraction, List.isEmpty_iff.mp hwhole] at hpos
    exact Nat.lt_irrefl 0 hpos
  dsimp only
  rw [hdigits, if_neg Bool.false_ne_true]
  rw [numeral_eq] at hall ⊢
  cases hexponent : Number.exponent? ((c :: s).drop (plainLength (c :: s))) with
  | none =>
    rw [hexponent] at hall
    dsimp only at hall
    rw [hall, List.drop_length]
    rfl
  | some found =>
    obtain ⟨exponent, more⟩ := found
    rw [hexponent] at hall
    have hsome : (c :: s).drop (plainLength (c :: s)) ≠ [] := by
      intro hnil
      rw [hnil] at hexponent
      cases hexponent
    have hmore : more = ((c :: s).drop (plainLength (c :: s))).length := by
      rw [List.length_drop]
      dsimp only at hall
      omega
    dsimp only
    rw [if_neg (by simpa using hsome), if_pos hmore]
    rfl

/-- What a number literal is: digits behind a hexadecimal mark, or a text that converts as a decimal
and has no such mark. -/
inductive IsNumeral : List Char → Float → Prop
  | hexadecimal {s digits : List Char} (hmark : Marked s digits) (hsome : digits ≠ [])
    (hdigits : ∀ c ∈ digits, Number.isHexDigit c = true)
    (hbound : Number.ofDigits 16 digits < 2 ^ 64) :
    IsNumeral s (Float.ofNat (Number.ofDigits 16 digits))
  | decimal {s : List Char} {x : Float} (hmark : ∀ rest, ¬ Marked s rest)
    (h : Number.ofTrimmed? s = some x) : IsNumeral s x

theorem hexDigits?_ne_nil (h : hexDigits? s = some digits) : digits ≠ [] := by
  rintro rfl
  cases s with
  | nil => cases h
  | cons mark s =>
    rw [hexDigits?] at h
    split at h
    · dsimp only at h
      split at h
      · cases h
      · next hsome =>
        rw [Option.some.inj h] at hsome
        exact hsome rfl
    · cases h

theorem isNumeral_of_numberLexeme
    (hc : c.isDigit = true ∨ (c = '.' ∧ s.head?.any Char.isDigit = true))
    (h : numberLexeme c s = .ok (some (.number x), s.length)) : IsNumeral (c :: s) x := by
  unfold numberLexeme at h
  split at h
  · next digits hfound =>
    obtain ⟨rfl, hdigits⟩ := Option.ite_none_right_eq_some.mp hfound
    obtain ⟨mark, rest, rfl, hmark, hall⟩ := hexDigits?_eq_some hdigits
    rw [Number.ofDigitsBelow?_eq (by decide) (by decide)] at h
    by_cases hbound : Number.ofDigits 16 digits < Nat.pow 2 64
    · rw [if_pos hbound] at h
      obtain ⟨hkind, hlength⟩ := Prod.mk.inj (Except.ok.inj h)
      cases hkind
      obtain rfl : rest = [] := by
        rw [List.length_cons, List.length_append] at hlength
        exact List.eq_nil_of_length_eq_zero (by omega)
      rw [List.append_nil]
      refine .hexadecimal ?_ (hexDigits?_ne_nil hdigits) hall hbound
      rcases hmark with rfl | rfl
      · exact .inl rfl
      · exact .inr rfl
    · rw [if_neg hbound] at h
      cases h
  · obtain ⟨rfl, hlength⟩ :
        (numeral (c :: s)).1.value = x ∧ (numeral (c :: s)).2 - 1 = s.length := by
      generalize numeral (c :: s) = found at h
      obtain ⟨hkind, hlength⟩ := Prod.mk.inj (Except.ok.inj h)
      exact ⟨TokenKind.number.inj (Option.some.inj hkind), hlength⟩
    have hpos := (plainLength_pos hc).1.trans_le (plainLength_le_numeral (c :: s))
    have hread := ofDecimalText?_of_numeral hc (by rw [List.length_cons]; omega)
    have hmark : ∀ rest, ¬ Marked (c :: s) rest := by
      rintro rest (heq | heq) <;> rw [heq] at hread <;> cases hread
    refine .decimal hmark ?_
    rw [Number.ofTrimmed?_eq_ofDecimalText? (hc.imp_right And.left) hmark, hread]

/-- A number that takes a whole text is such a literal. -/
theorem isNumeral_of_lexeme (h : lexeme c s = .ok (some (.number x), s.length)) :
    IsNumeral (c :: s) x := by
  unfold lexeme at h
  iterate 5
    split at h
    · cases h
  split at h
  · next hc => exact isNumeral_of_numberLexeme hc h
  split at h
  · unfold stringLexeme at h
    split at h
    · cases h
    · split at h <;> cases h
  split at h
  · have hkind := (Prod.mk.inj (Except.ok.inj h)).1
    unfold wordKind at hkind
    repeat' split at hkind
    all_goals cases hkind
  · unfold symbolLexeme at h
    split at h <;> cases h

theorem IsNumeral.isNumeric (h : IsNumeral s x) : ∀ c ∈ s, isNumeric c = true := by
  cases h with
  | hexadecimal hmark hsome hdigits hbound =>
    have hrest : ∀ c ∈ _, isNumeric c = true := fun c hc =>
      Number.isNumeric_of_isHexDigit (hdigits c hc)
    rcases hmark with rfl | rfl
    · exact List.forall_mem_cons.mpr ⟨by decide, List.forall_mem_cons.mpr ⟨by decide, hrest⟩⟩
    · exact List.forall_mem_cons.mpr ⟨by decide, List.forall_mem_cons.mpr ⟨by decide, hrest⟩⟩
  | decimal _ h => exact Number.isNumeric_of_ofTrimmed? h

/-! ### Texts that are one literal -/

theorem Passes.spacing {own behind : List Char} (h : Passes own behind) (hslash : '/' ∉ own) :
    ∀ c ∈ own, isSpacing c = true := by
  cases h with
  | blanks hown => exact hown
  | block | line | unclosed => exact absurd List.mem_cons_self hslash

/-- Where no comment is, just blanks stand behind the last token. -/
theorem Scans.spacing (h : Scans s []) (hslash : '/' ∉ s) : ∀ c ∈ s, isSpacing c = true := by
  generalize hkinds : [] = kinds at h
  induction h with
  | done => nofun
  | @passed c s count kinds h _ ih =>
    have hsplit : c :: s = (c :: s.take count) ++ s.drop count := by
      rw [List.cons_append, List.take_append_drop]
    rw [hsplit] at hslash ⊢
    rw [List.mem_append, not_or] at hslash
    exact List.forall_mem_append.mpr
      ⟨(passes_of_lexeme h).spacing hslash.1, ih hslash.2 hkinds⟩
  | token => cases hkinds

/-- Where no comment is, a text that is one token is what the token takes between blanks. -/
theorem Scans.exists_single (h : Scans s [kind]) (hslash : '/' ∉ s) :
    ∃ front c own behind, s = front ++ (c :: own) ++ behind ∧
      (∀ c ∈ front, isSpacing c = true) ∧ (∀ c ∈ behind, isSpacing c = true) ∧
      lexeme c own = .ok (some kind, own.length) := by
  generalize hkinds : [kind] = kinds at h
  induction h with
  | done => cases hkinds
  | @passed c s count kinds h _ ih =>
    have hsplit : c :: s = (c :: s.take count) ++ s.drop count := by
      rw [List.cons_append, List.take_append_drop]
    rw [hsplit] at hslash ⊢
    rw [List.mem_append, not_or] at hslash
    obtain ⟨front, first, own, behind, hrest, hfront, hbehind, hown⟩ := ih hslash.2 hkinds
    refine ⟨(c :: s.take count) ++ front, first, own, behind, ?_, ?_, hbehind, hown⟩
    · rw [hrest]
      simp only [List.append_assoc]
    · exact List.forall_mem_append.mpr ⟨(passes_of_lexeme h).spacing hslash.1, hfront⟩
  | @token c s _ count kinds h hrest _ =>
    cases hkinds
    have hslash : '/' ∉ s.drop count := fun hmem =>
      hslash (List.mem_cons_of_mem c (List.mem_of_mem_drop hmem))
    refine ⟨[], c, s.take count, s.drop count, ?_, nofun, hrest.spacing hslash, ?_⟩
    · rw [List.nil_append, List.cons_append, List.take_append_drop]
    · rw [List.length_take_of_le (length_lexeme_le h)]
      exact lexeme_take h

theorem isBlank_of_isSpacing (h : isSpacing c = true) : Text.isBlank c = true := by
  simp only [isSpacing, Bool.or_eq_true, decide_eq_true_eq] at h
  rcases h with (rfl | rfl) | rfl <;> rfl

/-- A text is cut into one number, with nothing else but what is passed over. -/
def IsLiteral (s : String) (x : Float) : Prop :=
  ∃ span stop, tokens s = .ok [⟨.number x, span⟩, ⟨.eof, stop⟩]

/-- A call of `Number` with a text gives a number and changes nothing. -/
def Converts (s : String) (x : Float) : Prop :=
  ∀ invoke machine, Library.call invoke .number [.string s] machine = (.ok (.number x), machine)

theorem converts (s : String) : Converts s (Number.ofText s.toList) :=
  fun _ _ => rfl

theorem Converts.eq {s : String} (h : Converts s x) : Number.ofText s.toList = x := by
  have hcall := h (fun _ _ => return .undefined) ⟨Heap.empty, 0⟩
  exact Value.number.inj (Except.ok.inj (congrArg Prod.fst hcall))

theorem IsLiteral.scans {s : String} (h : IsLiteral s x) : Scans s.toList [.number x] := by
  obtain ⟨span, stop, htokens⟩ := h
  obtain ⟨kinds, hscans, hkinds⟩ := exists_scans htokens
  have hown : kinds = [.number x] := (List.append_inj' hkinds rfl).1.symm
  rwa [hown] at hscans

/-- Where no comment is, what is left of a literal without blanks is a numeral. -/
theorem IsLiteral.isNumeral {s : String} (h : IsLiteral s x) (hslash : '/' ∉ s.toList) :
    IsNumeral (Text.trim s.toList) x := by
  obtain ⟨front, c, own, behind, hsplit, hfront, hbehind, hlexeme⟩ :=
    h.scans.exists_single hslash
  have hown := isNumeral_of_lexeme hlexeme
  have htrimmed : Text.IsTrimmed (c :: own) :=
    .of_forall fun d hd => Number.isBlank_of_isNumeric (hown.isNumeric d hd)
  rwa [hsplit, htrimmed.trim_between (fun d hd => isBlank_of_isSpacing (hfront d hd))
    fun d hd => isBlank_of_isSpacing (hbehind d hd)]

/-- A numeral converts to its number if that fits into a word with a sign. -/
theorem IsNumeral.ofTrimmed?_eq (h : IsNumeral s x) (hfits : ¬ Overlong s) :
    Number.ofTrimmed? s = some x := by
  cases h with
  | @hexadecimal digits hmark hsome hdigits _ =>
    have hlt : Number.ofDigits 16 digits < 2 ^ 63 :=
      not_le.mp fun hle => hfits ⟨digits, hmark, hsome, hdigits, hle⟩
    rw [Number.ofTrimmed?_of_marked hmark, Number.ofHexText?_of_hexDigit hsome hdigits, if_pos hlt]
  | decimal _ h => exact h

/-- Hexadecimal digits without a sign are a literal if their number fits into a word. -/
theorem isLiteral_of_marked (hmark : Marked s digits) (hsome : digits ≠ [])
    (hdigits : ∀ c ∈ digits, Number.isHexDigit c = true)
    (hbound : Number.ofDigits 16 digits < Nat.pow 2 64) :
    IsLiteral (String.ofList s) (Float.ofNat (Number.ofDigits 16 digits)) := by
  have htake : digits.takeWhile Number.isHexDigit = digits :=
    List.takeWhile_eq_self_iff.mpr hdigits
  have hsplit {mark : Char} (hmark : mark = 'x' ∨ mark = 'X') :
      lexeme '0' (mark :: digits) =
        .ok (some (.number (Float.ofNat (Number.ofDigits 16 digits))), digits.length + 1) := by
    rw [lexeme_of_isDigit rfl, numberLexeme, if_pos rfl, hexDigits?, if_pos hmark, htake]
    dsimp only
    rw [if_neg (by simpa using hsome)]
    dsimp only
    rw [Number.ofDigitsBelow?_eq (by decide) (by decide), if_pos hbound]
  have hall (mark : Char) : (mark :: digits).take (digits.length + 1) = mark :: digits :=
    List.take_of_length_le le_rfl
  rcases hmark with rfl | rfl
  · have htokens := tokens_of_lexeme (hsplit (.inl rfl))
    rw [hall] at htokens
    exact ⟨_, _, htokens⟩
  · have htokens := tokens_of_lexeme (hsplit (.inr rfl))
    rw [hall] at htokens
    exact ⟨_, _, htokens⟩

/-- No sign stands behind the mark of a hexadecimal literal. -/
theorem IsNumeral.not_hasSign (h : IsNumeral s x) (hmark : Marked s digits) :
    ¬ HasSign digits := by
  cases h with
  | hexadecimal hown hsome hdigits =>
    rw [hmark.unique hown]
    exact Number.not_hasSign_of_hexDigit hdigits
  | decimal hnone => exact absurd hmark (hnone digits)

/-- What a text converts to if nothing is left but some characters that stand for no number. -/
theorem ofText_eq_nan {s : List Char} (h : Number.ofTrimmed? (Text.trim s) = none) :
    Number.ofText s = 0.0 / 0.0 := by
  rw [Number.ofText, h]
  rfl

/-- A text with a comment stands for no number. -/
theorem ofText_of_slash {s : List Char} (hslash : '/' ∈ s) : Number.ofText s = 0.0 / 0.0 := by
  refine ofText_eq_nan (Option.eq_none_iff_forall_ne_some.mpr fun x hread => ?_)
  have hnumeric := Number.isNumeric_of_ofTrimmed? hread '/' (Text.mem_trim rfl hslash)
  cases hnumeric

/-- A hexadecimal number that is too large stands for no number. -/
theorem ofText_of_overlong {s : List Char} (h : Overlong (Text.trim s)) :
    Number.ofText s = 0.0 / 0.0 := by
  obtain ⟨digits, hmark, hsome, hdigits, hlarge⟩ := h
  apply ofText_eq_nan
  rw [Number.ofTrimmed?_of_marked hmark, Number.ofHexText?_of_hexDigit hsome hdigits,
    if_neg (not_lt.mpr hlarge)]

/-- What converts behind a mark is the number of a literal, if no sign is there. -/
theorem isLiteral_of_ofHexText? (hmark : Marked s digits)
    (hread : Number.ofHexText? digits = some x) (hsign : ¬ HasSign digits) :
    IsLiteral (String.ofList s) x := by
  obtain ⟨hsome, hdigits⟩ := Number.hexDigits_of_ofHexText? hread
  rw [Number.signed_eq hsign] at hsome hdigits
  rw [Number.ofHexText?_of_hexDigit hsome hdigits] at hread
  obtain ⟨hlt, heq⟩ := Option.ite_none_right_eq_some.mp hread
  rw [← Option.some.inj heq]
  exact isLiteral_of_marked hmark hsome hdigits (hlt.trans (by decide))

/-- What converts behind a mark is no literal, if a sign is there. -/
theorem not_isLiteral_of_hasSign {y : Float} (htrimmed : Text.IsTrimmed s)
    (hmark : Marked s digits)
    (hread : Number.ofHexText? digits = some y) (hsign : HasSign digits) :
    ¬ IsLiteral (String.ofList s) x := by
  intro hliteral
  have hslash : '/' ∉ s := by
    intro hmem
    cases Number.isNumeric_of_ofTrimmed? ((Number.ofTrimmed?_of_marked hmark).trans hread) '/' hmem
  have hnumeral := hliteral.isNumeral (by rwa [String.toList_ofList])
  rw [String.toList_ofList, htrimmed.trim_eq] at hnumeral
  exact hnumeral.not_hasSign hmark hsign

/-- **Number literals and converted texts agree**, but for comments, which no text that converts may
have, and for hexadecimal numbers: the conversion takes none that does not fit into a word with a
sign, and it takes a sign behind the mark, where a literal has none. -/
theorem literals_convert (s : String) :
    ∃ y, Converts s y ∧
      (∀ x, IsLiteral s x →
        ('/' ∉ s.toList ∧ ¬ Overlong (Text.trim s.toList) → y = x) ∧
        ('/' ∈ s.toList ∨ Overlong (Text.trim s.toList) → y = 0.0 / 0.0)) ∧
      ∀ rest, Marked (Text.trim s.toList) rest → y.isNaN = false →
        (¬ HasSign rest ∧ IsLiteral (String.ofList (Text.trim s.toList)) y) ∨
          (HasSign rest ∧ ∀ x, ¬ IsLiteral (String.ofList (Text.trim s.toList)) x) := by
  refine ⟨_, converts s, fun x hliteral => ⟨?_, ?_⟩, fun rest hmark hnan => ?_⟩
  · rintro ⟨hslash, hfits⟩
    rw [Number.ofText, (hliteral.isNumeral hslash).ofTrimmed?_eq hfits]
    rfl
  · rintro (hslash | hlong)
    · exact ofText_of_slash hslash
    · exact ofText_of_overlong hlong
  · cases hread : Number.ofHexText? rest with
    | none =>
      rw [ofText_eq_nan (by rw [Number.ofTrimmed?_of_marked hmark, hread])] at hnan
      cases hnan
    | some y =>
      have hvalue : Number.ofText s.toList = y := by
        rw [Number.ofText, Number.ofTrimmed?_of_marked hmark, hread]
        rfl
      rw [hvalue]
      by_cases hsign : HasSign rest
      · exact .inr ⟨hsign, fun x =>
          not_isLiteral_of_hasSign (Text.isTrimmed_trim s.toList) hmark hread hsign⟩
      · exact .inl ⟨hsign, isLiteral_of_ofHexText? hmark hread hsign⟩

theorem isLiteral_of_kinds {s : String}
    (h : (tokens s).toOption.map (·.map Token.kind) = some [.number x, .eof]) : IsLiteral s x := by
  obtain ⟨found, htokens, hkinds⟩ := exists_ok_of_map h
  match found, hkinds with
  | [⟨_, span⟩, ⟨_, stop⟩], rfl => exact ⟨span, stop, htokens⟩

/-- A hexadecimal number with blanks around it is the number that its text converts to. -/
theorem literals_convert_blanks :
    IsLiteral " 0X1f\t" 31.0 ∧ Converts " 0X1f\t" 31.0 ∧ IsLiteral "0X1f" 31.0 := by
  have hliteral : IsLiteral " 0X1f\t" 31.0 := isLiteral_of_kinds (by decide +kernel)
  have htrim : Text.trim " 0X1f\t".toList = "0X1f".toList := by decide +kernel
  have hmark : Marked "0X1f".toList "1f".toList := .inr rfl
  have hfits : ¬ Overlong "0X1f".toList := by
    rintro ⟨digits, hown, -, -, hlarge⟩
    rw [← hmark.unique hown] at hlarge
    revert hlarge
    decide
  obtain ⟨y, hconverts, hagree, hmarked⟩ := literals_convert " 0X1f\t"
  rw [htrim] at hagree hmarked
  obtain rfl : y = 31.0 := (hagree 31.0 hliteral).1 ⟨by decide, hfits⟩
  rcases hmarked _ hmark (by decide +kernel) with ⟨-, hown⟩ | ⟨hsign, -⟩
  · exact ⟨hliteral, hconverts, hown⟩
  · exact absurd hsign (by rintro (hsign | hsign) <;> cases hsign)

/-- The literal of the greatest word does not convert, and a text with a sign behind its mark
converts but is no literal. -/
theorem literals_and_texts_differ :
    (¬ ∀ s x, IsLiteral s x → Converts s x) ∧
      ¬ ∀ s y rest, Marked (Text.trim s.toList) rest → Converts s y → y.isNaN = false →
        ∃ x, IsLiteral (String.ofList (Text.trim s.toList)) x := by
  constructor
  · intro h
    have hliteral : IsLiteral "0xffffffffffffffff" (Float.ofNat 0xffffffffffffffff) :=
      isLiteral_of_kinds (by decide +kernel)
    have hne : Number.ofText "0xffffffffffffffff".toList ≠ Float.ofNat 0xffffffffffffffff := by
      decide +kernel
    exact hne (h _ _ hliteral).eq
  · intro h
    have htrim : Text.trim "0x-1".toList = "0x-1".toList := by decide +kernel
    have hmark : Marked (Text.trim "0x-1".toList) "-1".toList := .inl htrim
    obtain ⟨x, hliteral⟩ := h "0x-1" _ _ hmark (converts "0x-1") (by decide +kernel)
    rw [htrim, String.ofList_toList] at hliteral
    exact (hliteral.isNumeral (by decide)).not_hasSign hmark (.inl rfl)

end Doctest.Script
