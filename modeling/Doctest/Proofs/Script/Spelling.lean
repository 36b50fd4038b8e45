import Doctest.Proofs.Number.Numerals
import Doctest.Proofs.Script.Parsing.Brackets
import Doctest.Proofs.Script.Scanning
import Doctest.Script.Inspect

/-!
# Texts that spell tokens

A text spells some tokens if it is cut into them wherever no word and no numeral can go on behind
it. Words, numerals and texts between quotes spell one token each, and there is a rule for each way
to put texts together with symbols and blanks between them.
-/

namespace Doctest.Script

variable {c : Char} {s own other rest : List Char} {k : TokenKind} {kinds more : List TokenKind}
  {mark : Symbol}

/-- No word and no numeral goes on with a character. -/
def isStop (c : Char) : Bool :=
  !isWordPart c && c != '.'

/-- A text spells some tokens wherever no word and no numeral can go on behind it. -/
structure Spells (own : List Char) (kinds : List TokenKind) : Prop where
  head : ∃ c s, own = c :: s ∧ isSpacing c = false
  scans : ∀ {rest more}, (∀ c ∈ rest.head?, isStop c = true) → Scans rest more →
    Scans (own ++ rest) (kinds ++ more)

theorem not_isWordPart_of_isStop (h : isStop c = true) : isWordPart c = false := by
  rw [isStop, Bool.and_eq_true, Bool.not_eq_true'] at h
  exact h.1

theorem ne_of_isStop (h : isStop c = true) {d : Char} (hd : isStop d = false) : c ≠ d := by
  rintro rfl
  rw [h] at hd
  cases hd

theorem head?_ne_of_isStop (h : ∀ c ∈ rest.head?, isStop c = true) {d : Char}
    (hd : isStop d = false) : rest.head? ≠ some d :=
  fun heq => ne_of_isStop (h d heq) hd rfl

/-! ### Symbols and blanks -/

/-- A character is a symbol whatever follows it. -/
def Stands (c : Char) (mark : Symbol) : Prop :=
  ∀ s, lexeme c s = .ok (some (.symbol mark), 0)

theorem Stands.scans (h : Stands c mark) (hs : Scans s kinds) :
    Scans (c :: s) (.symbol mark :: kinds) :=
  .token (h s) hs

theorem Spells.symbol (h : Spells own kinds) (hc : Stands c mark) (hspacing : isSpacing c = false) :
    Spells (c :: own) (.symbol mark :: kinds) where
  head := ⟨c, own, rfl, hspacing⟩
  scans hrest hscans := hc.scans (h.scans hrest hscans)

theorem stands_comma : Stands ',' .comma :=
  fun _ => rfl

theorem stands_colon : Stands ':' .colon :=
  fun _ => rfl

theorem stands_lparen : Stands '(' .lparen :=
  fun _ => rfl

theorem stands_rparen : Stands ')' .rparen :=
  fun _ => rfl

theorem stands_lbracket : Stands '[' .lbracket :=
  fun _ => rfl

theorem stands_rbracket : Stands ']' .rbracket :=
  fun _ => rfl

theorem stands_lbrace : Stands '\x7b' .lbrace :=
  fun _ => rfl

theorem stands_rbrace : Stands '\x7d' .rbrace :=
  fun _ => rfl

/-- A blank before a text that begins with none is passed over. -/
theorem scans_blank (h : Scans s kinds) (hs : ∀ c ∈ s.head?, isSpacing c = false) :
    Scans (' ' :: s) kinds := by
  have hblank : lexeme ' ' s = .ok (none, 0) := by
    have htake : ([] ++ s).takeWhile isSpacing = [] :=
      Number.takeWhile_until (List.forall_mem_nil _) hs
    rw [List.nil_append] at htake
    rw [lexeme, htake]
    rfl
  exact .passed hblank h

theorem Spells.scans_blank (h : Spells own kinds) (hrest : ∀ c ∈ rest.head?, isStop c = true)
    (hscans : Scans rest more) : Scans (' ' :: (own ++ rest)) (kinds ++ more) := by
  refine Script.scans_blank (h.scans hrest hscans) ?_
  obtain ⟨d, s, rfl, hd⟩ := h.head
  rintro _ ⟨⟩
  exact hd

/-- Two texts with a symbol and a blank between them. -/
theorem Spells.between (h : Spells own kinds) (hother : Spells other more) (hc : Stands c mark)
    (hstop : isStop c = true) :
    Spells (own ++ c :: ' ' :: other) (kinds ++ .symbol mark :: more) where
  head := by
    obtain ⟨d, s, rfl, hd⟩ := h.head
    exact ⟨d, _, rfl, hd⟩
  scans hrest hscans := by
    rw [List.append_assoc, List.append_assoc]
    refine h.scans ?_ (hc.scans (hother.scans_blank hrest hscans))
    rintro _ ⟨⟩
    exact hstop

/-- A text between symbols, with blanks around it. -/
theorem Spells.within {d : Char} {mark' : Symbol} (h : Spells own kinds) (hc : Stands c mark)
    (hd : Stands d mark') (hspacing : isSpacing c = false) (hspacing' : isSpacing d = false) :
    Spells (c :: ' ' :: own ++ [' ', d]) (.symbol mark :: (kinds ++ [.symbol mark'])) where
  head := ⟨c, _, rfl, hspacing⟩
  scans {rest more} hrest hscans := by
    have hlast : Scans (' ' :: d :: rest) (.symbol mark' :: more) :=
      Script.scans_blank (hd.scans hscans) (by
        rintro _ ⟨⟩
        exact hspacing')
    have hinside : Scans (' ' :: (own ++ ' ' :: d :: rest)) (kinds ++ .symbol mark' :: more) :=
      h.scans_blank (by
        rintro _ ⟨⟩
        rfl) hlast
    have hall := hc.scans hinside
    simpa using hall

/-! ### Words -/

theorem isSpacing_eq_false {p : Char → Bool} (h : p c = true) (hspace : p ' ' = false)
    (htab : p '\t' = false) (hfeed : p '\x0c' = false) : isSpacing c = false := by
  apply Bool.eq_false_iff.mpr
  intro hspacing
  rw [isSpacing, Bool.or_eq_true, Bool.or_eq_true] at hspacing
  rcases hspacing with (heq | heq) | heq
  · exact Number.ne_of_holds h hspace (of_decide_eq_true heq)
  · exact Number.ne_of_holds h htab (of_decide_eq_true heq)
  · exact Number.ne_of_holds h hfeed (of_decide_eq_true heq)

theorem isSpacing_of_isWordStart (h : isWordStart c = true) : isSpacing c = false :=
  isSpacing_eq_false h (by decide) (by decide) (by decide)

theorem not_isDigit_of_isWordStart (h : isWordStart c = true) : c.isDigit = false := by
  apply Bool.eq_false_iff.mpr
  intro hdigit
  have hrange : c.toNat ≤ 57 := (Char.isDigit_iff_toNat.mp hdigit).2
  rw [isWordStart, Bool.or_eq_true, Bool.or_eq_true, decide_eq_true_eq, decide_eq_true_eq] at h
  rcases h with (halpha | rfl) | rfl
  · have hletter : (c.isUpper || c.isLower) = true := halpha
    have hfirst : 65 ≤ c.toNat ∨ 97 ≤ c.toNat := by
      rcases Bool.or_eq_true_iff.mp hletter with hupper | hlower
      · exact .inl (of_decide_eq_true hupper).1
      · exact .inr (of_decide_eq_true (Bool.and_eq_true_iff.mp hlower).1)
    omega
  · cases hdigit
  · cases hdigit

theorem lexeme_of_isWordStart (h : isWordStart c = true) (s : List Char) :
    lexeme c s = .ok (some (wordKind (String.ofList (c :: s.takeWhile isWordPart))),
      (s.takeWhile isWordPart).length) := by
  have hne {d : Char} (hd : isWordStart d = false) : c ≠ d := Number.ne_of_holds h hd
  rw [lexeme, if_neg (by rw [isSpacing_of_isWordStart h]; exact Bool.false_ne_true),
    if_neg (hne (by decide)), if_neg fun hcr => hne (d := '\r') (by decide) hcr.1,
    if_neg fun hline => hne (d := '/') (by decide) hline.1,
    if_neg fun hblock => hne (d := '/') (by decide) hblock.1, if_neg, if_neg, if_pos h]
  · rfl
  · rintro (hquote | hquote)
    · exact hne (d := '\x22') (by decide) hquote
    · exact hne (d := '\x27') (by decide) hquote
  · rintro (hdigit | ⟨hpoint, -⟩)
    · rw [not_isDigit_of_isWordStart h] at hdigit
      cases hdigit
    · exact hne (d := '.') (by decide) hpoint

theorem spells_word (hc : isWordStart c = true) (hs : s.all isWordPart = true) :
    Spells (c :: s) [wordKind (String.ofList (c :: s))] where
  head := ⟨c, s, rfl, isSpacing_of_isWordStart hc⟩
  scans {rest more} hrest hscans := by
    have htake : (s ++ rest).takeWhile isWordPart = s :=
      Number.takeWhile_until (List.all_eq_true.mp hs) fun d hd =>
        not_isWordPart_of_isStop (hrest d hd)
    have hlexeme := lexeme_of_isWordStart hc (s ++ rest)
    rw [htake] at hlexeme
    have hdrop : (s ++ rest).drop s.length = rest := List.drop_left
    refine .token hlexeme ?_
    change Scans ((s ++ rest).drop s.length) more
    rwa [hdrop]

/-! ### Numbers -/

theorem endsNumeral_of_isStop (h : ∀ c ∈ rest.head?, isStop c = true) :
    Number.EndsNumeral rest where
  digit d hd := by
    have hpart := not_isWordPart_of_isStop (h d hd)
    rw [isWordPart, Bool.or_eq_false_iff] at hpart
    exact hpart.2
  point := head?_ne_of_isStop h (by decide)
  exponent := by
    cases rest with
    | nil => rfl
    | cons d rest =>
      have hd := h d rfl
      rw [Number.exponent?, if_neg]
      rintro (rfl | rfl) <;> cases hd

open Number in
/-- A numeral is read up to where it ends. -/
theorem numeral_append {n : Numeral} (h : Writes s n) (hrest : EndsNumeral rest) :
    numeral (s ++ rest) = (n, s.length) := by
  obtain ⟨whole, fraction, exponent⟩ := n
  obtain ⟨hsome, hwhole, hfraction, tail, htail, rfl⟩ := h
  obtain ⟨hdigit, hpoint⟩ := head?_tail htail hrest
  dsimp only at *
  have htake : (whole ++ (pointed fraction ++ (tail ++ rest))).takeWhile Char.isDigit = whole :=
    takeWhile_until hwhole (head?_pointed fraction hdigit)
  have hdigits : pointDigits (pointed fraction ++ (tail ++ rest)) = fraction := by
    cases fraction with
    | nil =>
      rw [pointed, List.nil_append, pointDigits.eq_def]
      split
      · next heq => exact absurd (congrArg List.head? heq) hpoint
      · rfl
    | cons d fraction => exact takeWhile_until hfraction hdigit
  have hplain : plainLength (whole ++ (pointed fraction ++ (tail ++ rest))) =
      (whole ++ pointed fraction).length := by
    rw [plainLength, htake, List.drop_left, hdigits]
    cases fraction with
    | nil => rw [pointed, List.append_nil]; rfl
    | cons d fraction =>
      rw [pointed, List.length_append, List.length_cons]
      dsimp only [List.isEmpty_cons]
      rw [if_neg Bool.false_ne_true, List.length_cons, List.length_cons]
      omega
  rw [List.append_assoc, List.append_assoc, numeral_eq, hplain, htake, List.drop_left, hdigits,
    ← List.append_assoc whole, List.drop_left, exponent?_append htail hrest]
  cases htail with
  | none => rw [if_pos rfl, List.append_nil]
  | positive | negative =>
    rw [if_neg (List.cons_ne_nil _ _)]
    simp only [List.length_append, Nat.add_assoc]

theorem isSpacing_of_isDigit (h : c.isDigit = true) : isSpacing c = false :=
  isSpacing_eq_false h (by decide) (by decide) (by decide)

theorem lexeme_of_isDigit (h : c.isDigit = true) (s : List Char) :
    lexeme c s = numberLexeme c s := by
  have hne {d : Char} (hd : d.isDigit = false) : c ≠ d := Number.ne_of_holds h hd
  rw [lexeme, if_neg (by rw [isSpacing_of_isDigit h]; exact Bool.false_ne_true),
    if_neg (hne (by decide)), if_neg fun hcr => hne (d := '\r') (by decide) hcr.1,
    if_neg fun hline => hne (d := '/') (by decide) hline.1,
    if_neg fun hblock => hne (d := '/') (by decide) hblock.1, if_pos (.inl h)]

/-- A numeral is one token, the number of which is what the text converts to. -/
theorem spells_numeral {n : Number.Numeral} (h : Number.Writes s n) :
    Spells s [.number (Number.ofText s)] where
  head := by
    obtain ⟨c, s, rfl, hc, -⟩ := h.exists_digit
    exact ⟨c, s, rfl, isSpacing_of_isDigit hc⟩
  scans {rest more} hrest hscans := by
    have hnumeral := numeral_append h (endsNumeral_of_isStop hrest)
    obtain ⟨c, s, rfl, hc, hx, hX⟩ := h.exists_digit
    have hnone : (if c = '0' then hexDigits? (s ++ rest) else none) = none := by
      have hmark {d : Char} (hs : s.head? ≠ some d) (hd : isStop d = false) :
          (s ++ rest).head? ≠ some d := by
        cases s with
        | nil => exact head?_ne_of_isStop hrest hd
        | cons e s => exact hs
      have hx' := hmark hx (by decide)
      have hX' := hmark hX (by decide)
      split
      · cases hall : s ++ rest with
        | nil => rfl
        | cons d more =>
          rw [hall] at hx' hX'
          rw [hexDigits?, if_neg]
          rintro (rfl | rfl)
          · exact hx' rfl
          · exact hX' rfl
      · rfl
    have hlexeme : lexeme c (s ++ rest) =
        .ok (some (.number (Number.ofText (c :: s))), s.length) := by
      rw [lexeme_of_isDigit hc, numberLexeme, hnone]
      dsimp only
      rw [← List.cons_append, hnumeral, (Number.ofText_writes h).1]
      rfl
    have hdrop : (s ++ rest).drop s.length = rest := List.drop_left
    refine .token hlexeme ?_
    change Scans ((s ++ rest).drop s.length) more
    rwa [hdrop]

/-- A minus is a token of its own unless an equals sign follows. -/
theorem Spells.minus (h : Spells (c :: s) kinds) (hc : c ≠ '=') :
    Spells ('-' :: c :: s) (.symbol .minus :: kinds) where
  head := ⟨'-', _, rfl, rfl⟩
  scans {rest more} hrest hscans := by
    have hlexeme : lexeme '-' (c :: (s ++ rest)) = .ok (some (.symbol .minus), 0) := by
      have hassign : ('=' == c) = false := beq_false_of_ne hc.symm
      change symbolLexeme '-' (c :: (s ++ rest)) = _
      simp [symbolLexeme, Symbol.longestFirst, Symbol.text, List.find?, List.isPrefixOf, hassign]
      rfl
    exact .token hlexeme (h.scans hrest hscans)

/-! ### Texts between quotes -/

/-- Quotes that a string begins with. -/
def IsQuote (mark : Char) : Prop :=
  mark = '\x22' ∨ mark = '\x27'

theorem stringBody?_quoted {mark : Char} (hmark : IsQuote mark) (s rest : List Char) :
    stringBody? mark (s.flatMap (quotedChar mark) ++ mark :: rest) =
      some (s.flatMap (quotedChar mark)) := by
  have hbackslash : mark ≠ '\\' := by rintro rfl; cases hmark <;> contradiction
  induction s with
  | nil =>
    rw [List.flatMap_nil, List.nil_append, stringBody?.eq_def]
    exact if_pos rfl
  | cons c s ih =>
    rw [List.flatMap_cons, List.append_assoc]
    -- A character that is escaped takes a backslash and one more that ends no line.
    have hescaped {d : Char} (hd : d ≠ '\n') : stringBody? mark
        ('\\' :: d :: (s.flatMap (quotedChar mark) ++ mark :: rest)) =
          some ('\\' :: d :: s.flatMap (quotedChar mark)) := by
      rw [stringBody?.eq_def]
      dsimp only
      rw [if_neg (Ne.symm hbackslash), if_neg (by decide), if_pos rfl, if_neg hd, ih]
      rfl
    rw [quotedChar]
    split
    · exact hescaped (by decide)
    split
    · exact hescaped (by decide)
    split
    · exact hescaped (by decide)
    split
    · exact hescaped (by decide)
    split
    · next hfeed _ _ _ _ => exact hescaped hfeed
    · next hfeed _ _ hplain hquote =>
      change stringBody? mark (c :: (s.flatMap (quotedChar mark) ++ mark :: rest)) = _
      rw [stringBody?.eq_def]
      dsimp only
      rw [if_neg hquote, if_neg hfeed, if_neg hplain, ih]
      rfl

theorem unescape?_quoted {mark : Char} (hmark : IsQuote mark) (s : List Char) :
    unescape? (s.flatMap (quotedChar mark)) = some s := by
  induction s with
  | nil =>
    rw [List.flatMap_nil, unescape?]
  | cons c s ih =>
    rw [List.flatMap_cons]
    have hescaped {d : Char} (hd : escape? (d :: s.flatMap (quotedChar mark)) = some (c, 1)) :
        unescape? ('\\' :: d :: s.flatMap (quotedChar mark)) = some (c :: s) := by
      rw [unescape?, if_pos rfl, hd]
      dsimp only
      rw [List.drop_one, List.tail_cons, ih]
      rfl
    rw [quotedChar]
    split
    · next h =>
      subst h
      exact hescaped rfl
    split
    · next h =>
      subst h
      exact hescaped rfl
    split
    · next h =>
      subst h
      exact hescaped rfl
    split
    · next h =>
      subst h
      exact hescaped rfl
    split
    · next h =>
      subst h
      rcases hmark with rfl | rfl <;> exact hescaped rfl
    · next hplain _ =>
      change unescape? (c :: s.flatMap (quotedChar mark)) = _
      rw [unescape?, if_neg hplain, ih]
      rfl

/-- A text between quotes is one token, unless it is between backticks. -/
theorem spells_quoted (h : IsQuote (quoteMark s)) :
    Spells (quoted s) [.string (String.ofList s)] where
  head := by
    refine ⟨quoteMark s, _, rfl, ?_⟩
    rcases h with h | h <;> rw [h] <;> rfl
  scans {rest more} hrest hscans := by
    have hstring : stringLexeme (quoteMark s)
        (s.flatMap (quotedChar (quoteMark s)) ++ quoteMark s :: rest) =
          .ok (some (.string (String.ofList s)),
            (s.flatMap (quotedChar (quoteMark s))).length + 1) := by
      rw [stringLexeme, stringBody?_quoted h]
      dsimp only
      rw [unescape?_quoted h]
    have hlexeme : ∀ t, lexeme (quoteMark s) t = stringLexeme (quoteMark s) t := by
      intro t
      rcases h with h | h <;> rw [h] <;> rfl
    have hdrop : (s.flatMap (quotedChar (quoteMark s)) ++ quoteMark s :: rest).drop
        ((s.flatMap (quotedChar (quoteMark s))).length + 1) = rest := by
      rw [List.drop_append]
      simp
    rw [quoted, List.cons_append, List.cons_append, List.append_assoc, List.singleton_append]
    refine .token ((hlexeme _).trans hstring) ?_
    rwa [hdrop]

/-! ### Quotes that are chosen -/

/-- A text is not put between backticks: if it has quotes of both sorts, it has a backtick too. -/
def IsQuotable (s : List Char) : Prop :=
  '\x27' ∈ s → '\x22' ∈ s → '\x60' ∈ s

theorem isQuote_quoteMark (h : IsQuotable s) : IsQuote (quoteMark s) := by
  rw [quoteMark]
  split
  · exact .inr rfl
  next hsingle =>
  split
  · exact .inl rfl
  next hdouble =>
  rw [not_not] at hsingle hdouble
  rw [if_neg (not_not.mpr (h hsingle hdouble))]
  exact .inr rfl

/-- The token that a key is shown as. -/
def keyKind (key : String) : TokenKind :=
  if isPlainKey key.toList then wordKind key else .string key

theorem spells_key {key : String} (h : IsQuotable key.toList) :
    Spells (keyText key) [keyKind key] := by
  rw [keyText, keyKind]
  split
  case isTrue hplain =>
    obtain ⟨s, rfl⟩ : ∃ s, key = String.ofList s := ⟨key.toList, String.ofList_toList.symm⟩
    rw [String.toList_ofList] at hplain ⊢
    cases s with
    | nil => cases hplain
    | cons c s =>
      rw [isPlainKey, Bool.and_eq_true] at hplain
      exact spells_word hplain.1 hplain.2
  case isFalse hplain =>
    have hquoted := spells_quoted (isQuote_quoteMark h)
    rwa [String.ofList_toList] at hquoted

/-! ### Lists -/

section Lists

open Doctest.Script.Parser (separated)

variable {texts : List (List Char)} {kindss : List (List TokenKind)}

/-- Texts with commas and blanks between them. -/
theorem spells_separated (h : List.Forall₂ Spells texts kindss) (hsome : texts ≠ []) :
    Spells (texts.intersperse [',', ' ']).flatten (separated kindss) := by
  induction h with
  | nil => exact absurd rfl hsome
  | @cons own kinds texts kindss hown hrest ih =>
    cases hrest with
    | nil =>
      change Spells (own ++ []) kinds
      rwa [List.append_nil]
    | cons => exact hown.between (ih (List.cons_ne_nil _ _)) stands_comma rfl

theorem spells_enclosed {c d : Char} {mark mark' : Symbol} (h : List.Forall₂ Spells texts kindss)
    (hc : Stands c mark) (hd : Stands d mark') (hspacing : isSpacing c = false)
    (hspacing' : isSpacing d = false) :
    Spells (enclosed c d texts) (.symbol mark :: (separated kindss ++ [.symbol mark'])) := by
  cases h with
  | nil => exact ⟨⟨c, [d], rfl, hspacing⟩, fun _ hscans => hc.scans (hd.scans hscans)⟩
  | cons hown hrest =>
    exact (spells_separated (.cons hown hrest) (List.cons_ne_nil _ _)).within hc hd hspacing
      hspacing'

end Lists

end Doctest.Script
