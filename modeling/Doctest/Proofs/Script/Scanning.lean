import Doctest.Script.Scan
import Mathlib.Data.List.Infix
import Mathlib.Data.List.TakeWhile

/-!
# Scanning texts one after the other

Some characters break what stands before them: with a line feed or a closing parenthesis no token
goes on but a string. No token and no comment at all goes on behind a line feed, except for a block
comment. So a text is cut into the same tokens where a line feed and another text follow it, unless
it ends within a block comment, and the other text is cut as it is by itself.
-/

namespace Doctest.Script

variable {c : Char} {s t : List Char} {kind : TokenKind} {count : Nat}

/-! ### Kinds of tokens -/

/-- A text is cut into tokens of some kinds, behind which it ends. -/
inductive Scans : List Char → List TokenKind → Prop
  | done : Scans [] []
  | passed {c : Char} {s : List Char} {count : Nat} {kinds : List TokenKind}
    (h : lexeme c s = .ok (none, count)) (hrest : Scans (s.drop count) kinds) :
    Scans (c :: s) kinds
  | token {c : Char} {s : List Char} {kind : TokenKind} {count : Nat} {kinds : List TokenKind}
    (h : lexeme c s = .ok (some kind, count)) (hrest : Scans (s.drop count) kinds) :
    Scans (c :: s) (kind :: kinds)

/-- A text that is read from anywhere on is cut into tokens of the same kinds. -/
theorem Scans.exists_tokens {kinds : List TokenKind} (h : Scans s kinds) (offset : Nat) :
    ∃ found, tokensFrom offset s = .ok found ∧ found.map Token.kind = kinds ++ [.eof] := by
  induction h generalizing offset with
  | done =>
    rw [tokensFrom]
    exact ⟨_, rfl, rfl⟩
  | @passed c s count kinds h _ ih =>
    obtain ⟨found, hfound, hkinds⟩ := ih (offset + Text.byteSize (c :: s.take count))
    refine ⟨found, ?_, hkinds⟩
    rw [tokensFrom, h]
    dsimp only
    rw [hfound]
  | @token c s kind count kinds h _ ih =>
    obtain ⟨found, hfound, hkinds⟩ := ih (offset + Text.byteSize (c :: s.take count))
    refine ⟨⟨kind, offset, offset + Text.byteSize (c :: s.take count)⟩ :: found, ?_, ?_⟩
    · rw [tokensFrom, h]
      dsimp only
      rw [hfound]
    · rw [List.map_cons, hkinds, List.cons_append]

theorem exists_scans {offset : Nat} {found : List Token} (h : tokensFrom offset s = .ok found) :
    ∃ kinds, Scans s kinds ∧ found.map Token.kind = kinds ++ [.eof] := by
  fun_induction tokensFrom offset s generalizing found with
  | case1 offset =>
    cases h
    exact ⟨[], .done, rfl⟩
  | case2 => cases h
  | case3 => cases h
  | case4 offset c s count stop tokens hrest hlexeme =>
    rename_i ih
    cases h
    obtain ⟨kinds, hscans, hkinds⟩ := ih hrest
    exact ⟨kinds, .passed hlexeme hscans, hkinds⟩
  | case5 offset c s count stop kind tokens hrest hlexeme =>
    rename_i ih
    cases h
    obtain ⟨kinds, hscans, hkinds⟩ := ih hrest
    exact ⟨kind :: kinds, .token hlexeme hscans, by rw [List.map_cons, hkinds, List.cons_append]⟩

/-- A text ends within a block comment: scanning it comes to the start of a comment that is not
closed behind it. -/
inductive OpenComment : List Char → Prop
  | here {s : List Char} (h : ¬ ['*', '/'] <:+: s) : OpenComment ('/' :: '*' :: s)
  | later {c : Char} {s : List Char} {kind : Option TokenKind} {count : Nat}
    (h : lexeme c s = .ok (kind, count)) (hrest : OpenComment (s.drop count)) :
    OpenComment (c :: s)

/-- Only a text in which a comment starts ends within one. -/
theorem OpenComment.infix (h : OpenComment s) : ['/', '*'] <:+: s := by
  induction h with
  | @here s _ => exact ⟨[], s, rfl⟩
  | @later c s kind count _ _ ih =>
    have hrest : s.drop count <:+: c :: s :=
      (List.drop_suffix count s).isInfix.trans (List.suffix_cons c s).isInfix
    exact ih.trans hrest

/-! ### Parts of lexemes before a character that breaks them -/

/-- A character with which no lexeme goes on, unless it is a comment or a string. -/
structure Breaks (d : Char) : Prop where
  spacing : isSpacing d = false
  part : isWordPart d = false
  digit : d.isDigit = false
  hexDigit : Number.isHexDigit d = false
  sign : decide (d = '+' ∨ d = '-') = false
  ne_point : d ≠ '.'
  ne_slash : d ≠ '/'
  ne_star : d ≠ '*'
  symbol : ∀ mark : Symbol, d ∉ mark.text.toList.tail

theorem breaks_feed : Breaks '\n' := by
  refine ⟨rfl, rfl, rfl, rfl, rfl, nofun, nofun, nofun, fun mark => ?_⟩
  cases mark <;> decide

theorem breaks_rparen : Breaks ')' := by
  refine ⟨rfl, rfl, rfl, rfl, rfl, by decide, by decide, by decide, fun mark => ?_⟩
  cases mark <;> decide

theorem takeWhile_append_cons {p : Char → Bool} {d : Char} (h : p d = false) (s t : List Char) :
    (s ++ d :: t).takeWhile p = s.takeWhile p := by
  induction s with
  | nil => simp [h]
  | cons c s ih => rw [List.cons_append, List.takeWhile_cons, List.takeWhile_cons, ih]

theorem head?_append_cons_iff {d x : Char} (h : d ≠ x) (s t : List Char) :
    (s ++ d :: t).head? = some x ↔ s.head? = some x := by
  cases s with
  | nil => simp [h]
  | cons c s => rfl

theorem any_head?_append_cons {p : Char → Bool} {d : Char} (h : p d = false) (s t : List Char) :
    (s ++ d :: t).head?.any p = s.head?.any p := by
  cases s with
  | nil => simp [h]
  | cons c s => rfl

theorem isPrefixOf_append_cons {needle : List Char} {d : Char} (h : d ∉ needle)
    (s t : List Char) : needle.isPrefixOf (s ++ d :: t) = needle.isPrefixOf s := by
  induction needle generalizing s with
  | nil => rfl
  | cons x needle ih =>
    obtain ⟨hd, hneedle⟩ := List.ne_and_not_mem_of_not_mem_cons h
    cases s with
    | nil => simp [List.isPrefixOf, Ne.symm hd]
    | cons c s => rw [List.cons_append, List.isPrefixOf, List.isPrefixOf, ih hneedle]

theorem commentLength_le (s : List Char) : commentLength s ≤ s.length := by
  fun_induction commentLength s with
  | case1 | case2 => exact le_rfl
  | case3 c d s =>
    rw [List.length_cons, List.length_cons]
    omega
  | case4 c d s _ ih =>
    rw [List.length_cons]
    omega

theorem commentLength_append (h : ['*', '/'] <:+: s) (t : List Char) :
    commentLength (s ++ t) = commentLength s := by
  fun_induction commentLength s with
  | case1 => simp at h
  | case2 c =>
    have hlength := h.length_le
    simp at hlength
  | case3 c d s hclosed => simp [commentLength, hclosed]
  | case4 c d s hopen ih =>
    have hinside : ['*', '/'] <:+: d :: s := by
      rcases List.infix_cons_iff.mp h with hfront | hinside
      · obtain ⟨rfl, hrest⟩ := List.cons_prefix_cons.mp hfront
        obtain ⟨rfl, -⟩ := List.cons_prefix_cons.mp hrest
        exact absurd ⟨rfl, rfl⟩ hopen
      · exact hinside
    have hstep (u : List Char) : commentLength (c :: d :: u) = commentLength (d :: u) + 1 :=
      if_neg hopen
    rw [List.cons_append, List.cons_append, hstep, ← ih hinside, List.cons_append]

theorem stringBody?_append {quote : Char} {body : List Char} (h : stringBody? quote s = some body)
    (t : List Char) :
    stringBody? quote (s ++ t) = some body ∧ body.length + 1 ≤ s.length := by
  fun_induction stringBody? quote s generalizing body with
  | case1 | case3 | case4 | case5 => cases h
  | case2 s =>
    cases h
    rw [List.cons_append, stringBody?.eq_def]
    exact ⟨if_pos rfl, Nat.succ_le_succ (Nat.zero_le _)⟩
  | case6 d s hfeed hquote hline ih =>
    obtain ⟨rest, hrest, rfl⟩ := Option.map_eq_some_iff.mp h
    obtain ⟨heq, hle⟩ := ih hrest
    rw [List.cons_append, List.cons_append, stringBody?.eq_def]
    dsimp only
    rw [if_neg hquote, if_neg hline, if_pos rfl, if_neg hfeed, heq]
    simp only [Option.map_some, List.length_cons, true_and]
    omega
  | case7 d s hquote hline hescape ih =>
    obtain ⟨rest, hrest, rfl⟩ := Option.map_eq_some_iff.mp h
    obtain ⟨heq, hle⟩ := ih hrest
    rw [List.cons_append, stringBody?.eq_def]
    dsimp only
    rw [if_neg hquote, if_neg hline, if_neg hescape, heq]
    simp only [Option.map_some, List.length_cons, true_and]
    omega

/-! ### Numbers before a character that breaks them -/

theorem length_takeWhile_le (p : Char → Bool) (s : List Char) :
    (s.takeWhile p).length ≤ s.length :=
  (List.takeWhile_prefix p).length_le

/-- The digits after a point at the front of a text. -/
def pointDigits : List Char → List Char
  | '.' :: s => s.takeWhile Char.isDigit
  | _ => []

theorem pointDigits_eq_nil {c : Char} (hc : c ≠ '.') (s : List Char) :
    pointDigits (c :: s) = [] := by
  rw [pointDigits]
  exact fun _ heq => hc (List.cons.inj heq).1

theorem pointDigits_append_cons {d : Char} (hd : Breaks d) (s t : List Char) :
    pointDigits (s ++ d :: t) = pointDigits s := by
  cases s with
  | nil => exact pointDigits_eq_nil hd.ne_point t
  | cons c s =>
    by_cases hpoint : c = '.'
    · subst hpoint
      exact takeWhile_append_cons hd.digit s t
    · rw [List.cons_append, pointDigits_eq_nil hpoint, pointDigits_eq_nil hpoint]

theorem length_pointDigits_le (s : List Char) :
    (pointDigits s).isEmpty = true ∨ (pointDigits s).length + 1 ≤ s.length := by
  unfold pointDigits
  split
  · exact .inr (Nat.succ_le_succ (length_takeWhile_le _ _))
  · exact .inl rfl

/-- The number of characters of a numeral in front of its exponent. -/
def plainLength (s : List Char) : Nat :=
  let whole := s.takeWhile Char.isDigit
  let fraction := pointDigits (s.drop whole.length)
  if fraction.isEmpty then whole.length else whole.length + 1 + fraction.length

theorem plainLength_le (s : List Char) : plainLength s ≤ s.length := by
  have hwhole := length_takeWhile_le Char.isDigit s
  have hpoint := length_pointDigits_le (s.drop (s.takeWhile Char.isDigit).length)
  rw [List.length_drop] at hpoint
  unfold plainLength
  dsimp only
  split
  · exact hwhole
  · next hsome =>
    rcases hpoint with hempty | hle
    · exact absurd hempty hsome
    · omega

theorem plainLength_append_cons {d : Char} (hd : Breaks d) (s t : List Char) :
    plainLength (s ++ d :: t) = plainLength s := by
  have hwhole := length_takeWhile_le Char.isDigit s
  unfold plainLength
  dsimp only
  rw [takeWhile_append_cons hd.digit, List.drop_append_of_le_length hwhole,
    pointDigits_append_cons hd]

theorem exponent?_append_cons {d : Char} (hd : Breaks d) (s t : List Char) :
    Number.exponent? (s ++ d :: t) = Number.exponent? s := by
  cases s with
  | nil =>
    have hletter : ¬ (d = 'e' ∨ d = 'E') := by
      rintro (rfl | rfl) <;> exact absurd hd.hexDigit (by decide)
    exact if_neg hletter
  | cons c s =>
    have hsign := length_takeWhile_le (fun d => d = '+' ∨ d = '-') s
    rw [List.cons_append, Number.exponent?, Number.exponent?]
    dsimp only
    rw [takeWhile_append_cons hd.sign, List.drop_append_of_le_length hsign,
      takeWhile_append_cons hd.digit]

theorem length_exponent?_le {exponent : Int} {count : Nat}
    (h : Number.exponent? s = some (exponent, count)) : count ≤ s.length := by
  cases s with
  | nil => cases h
  | cons c s =>
    have hsign := length_takeWhile_le (fun d => d = '+' ∨ d = '-') s
    have hdigits := length_takeWhile_le Char.isDigit
      (s.drop (s.takeWhile fun d => d = '+' ∨ d = '-').length)
    rw [List.length_drop] at hdigits
    rw [Number.exponent?] at h
    split at h
    · dsimp only at h
      split at h
      · cases h
      · injection h with h
        injection h with _ hcount
        rw [List.length_cons]
        omega
    · cases h

theorem numeral_eq (s : List Char) :
    numeral s =
      match Number.exponent? (s.drop (plainLength s)) with
      | some (exponent, count) =>
        (⟨s.takeWhile Char.isDigit,
          pointDigits (s.drop (s.takeWhile Char.isDigit).length), exponent⟩, plainLength s + count)
      | none =>
        (⟨s.takeWhile Char.isDigit,
          pointDigits (s.drop (s.takeWhile Char.isDigit).length), 0⟩, plainLength s) :=
  rfl

theorem numeral_append_cons {d : Char} (hd : Breaks d) (s t : List Char) :
    numeral (s ++ d :: t) = numeral s := by
  have hwhole := length_takeWhile_le Char.isDigit s
  rw [numeral_eq, numeral_eq, plainLength_append_cons hd,
    List.drop_append_of_le_length (plainLength_le s), exponent?_append_cons hd,
    takeWhile_append_cons hd.digit, List.drop_append_of_le_length hwhole,
    pointDigits_append_cons hd]

theorem length_numeral_le (s : List Char) : (numeral s).2 ≤ s.length := by
  have hplain := plainLength_le s
  rw [numeral_eq]
  split
  · next exponent count hexponent =>
    have hcount := length_exponent?_le hexponent
    rw [List.length_drop] at hcount
    dsimp only
    omega
  · exact hplain

theorem hexDigits?_append_cons {d : Char} (hd : Breaks d) (s t : List Char) :
    hexDigits? (s ++ d :: t) = hexDigits? s := by
  cases s with
  | nil =>
    have hletter : ¬ (d = 'x' ∨ d = 'X') := by
      rintro (rfl | rfl) <;> exact absurd hd.part (by decide)
    exact if_neg hletter
  | cons x s =>
    rw [List.cons_append, hexDigits?, hexDigits?, takeWhile_append_cons hd.hexDigit]

theorem length_hexDigits?_le {digits : List Char} (h : hexDigits? s = some digits) :
    digits.length + 1 ≤ s.length := by
  cases s with
  | nil => cases h
  | cons x s =>
    rw [hexDigits?] at h
    split at h
    · dsimp only at h
      split at h
      · cases h
      · cases h
        exact Nat.succ_le_succ (length_takeWhile_le _ _)
    · cases h

/-! ### Lexemes before a character that breaks them -/

theorem numberLexeme_append_cons {d : Char} (hd : Breaks d) (c : Char) (s t : List Char) :
    numberLexeme c (s ++ d :: t) = numberLexeme c s := by
  rw [numberLexeme, numberLexeme, hexDigits?_append_cons hd, ← List.cons_append,
    numeral_append_cons hd]

theorem length_numberLexeme_le {kind : Option TokenKind}
    (h : numberLexeme c s = .ok (kind, count)) : count ≤ s.length := by
  unfold numberLexeme at h
  split at h
  · next digits hdigits =>
    have hlength := length_hexDigits?_le (Option.ite_none_right_eq_some.mp hdigits).2
    split at h
    · cases h
      exact hlength
    · cases h
  · have hlength := length_numeral_le (c :: s)
    have hcount : (numeral (c :: s)).2 - 1 = count := congrArg Prod.snd (Except.ok.inj h)
    rw [List.length_cons] at hlength
    omega

theorem symbolLexeme_append_cons {d : Char} (hd : Breaks d) (c : Char) (s t : List Char) :
    symbolLexeme c (s ++ d :: t) = symbolLexeme c s := by
  have hprefix : (fun mark : Symbol => mark.text.toList.isPrefixOf (c :: (s ++ d :: t))) =
      fun mark => mark.text.toList.isPrefixOf (c :: s) := by
    funext mark
    have hmark := hd.symbol mark
    cases htext : mark.text.toList with
    | nil => rfl
    | cons first rest =>
      rw [htext, List.tail_cons] at hmark
      rw [List.isPrefixOf, List.isPrefixOf, isPrefixOf_append_cons hmark]
  rw [symbolLexeme, symbolLexeme, hprefix]

theorem length_symbolLexeme_le {kind : Option TokenKind}
    (h : symbolLexeme c s = .ok (kind, count)) : count ≤ s.length := by
  unfold symbolLexeme at h
  split at h
  · next mark hmark =>
    cases h
    have hprefix := List.find?_some hmark
    have hlength := (List.isPrefixOf_iff_prefix.mp hprefix).length_le
    rw [String.length_toList, List.length_cons] at hlength
    omega
  · cases h

theorem length_stringLexeme_le {kind : Option TokenKind}
    (h : stringLexeme c s = .ok (kind, count)) : count ≤ s.length := by
  unfold stringLexeme at h
  split at h
  · cases h
  · next body hbody =>
    obtain ⟨-, hlength⟩ := stringBody?_append hbody []
    split at h
    · cases h
    · cases h
      exact hlength

/-- What stands at the front of a text does not go on behind it. -/
theorem length_lexeme_le {kind : Option TokenKind} (h : lexeme c s = .ok (kind, count)) :
    count ≤ s.length := by
  unfold lexeme at h
  split at h
  · cases h
    exact length_takeWhile_le _ _
  split at h
  · cases h
    exact Nat.zero_le _
  split at h
  · next hreturn =>
    obtain ⟨rest, rfl⟩ := List.head?_eq_some_iff.mp hreturn.2
    cases h
    exact Nat.succ_le_succ (Nat.zero_le _)
  split at h
  · cases h
    exact length_takeWhile_le _ _
  split at h
  · next hblock =>
    obtain ⟨rest, rfl⟩ := List.head?_eq_some_iff.mp hblock.2
    cases h
    exact Nat.succ_le_succ (commentLength_le rest)
  split at h
  · exact length_numberLexeme_le h
  split at h
  · exact length_stringLexeme_le h
  split at h
  · cases h
    exact length_takeWhile_le _ _
  · exact length_symbolLexeme_le h

/-- A comment up to the end of its line is the same before what follows that. -/
theorem takeWhile_line_append {d : Char} (h : d = '\n' ∨ '\n' ∈ s) (t : List Char) :
    (s ++ d :: t).takeWhile (· ≠ '\n') = s.takeWhile (· ≠ '\n') := by
  rcases h with rfl | hmem
  · exact takeWhile_append_cons (by decide) s t
  · rw [List.takeWhile_append, if_neg]
    intro hlength
    have hall := List.takeWhile_eq_self_iff.mp
      ((List.takeWhile_prefix (· ≠ '\n')).eq_of_length hlength)
    simpa using hall '\n' hmem

/-- What stands at the front of a text stands there if a character that breaks it follows the text,
unless it is a comment that is not closed or a string that ends behind the text. -/
theorem lexeme_append_cons {d : Char} (hd : Breaks d) (t : List Char)
    (hline : c = '/' → s.head? = some '/' → d = '\n' ∨ '\n' ∈ s)
    (hclosed : ∀ rest, c = '/' → s = '*' :: rest → ['*', '/'] <:+: rest)
    (hreturn : c = '\r' → s = [] → d ≠ '\n')
    (hstring : c = '\x22' ∨ c = '\x27' → stringLexeme c (s ++ d :: t) = stringLexeme c s) :
    lexeme c (s ++ d :: t) = lexeme c s := by
  -- What starts a comment or a number is the same character in both texts.
  have hslash := head?_append_cons_iff hd.ne_slash s t
  have hstar := head?_append_cons_iff hd.ne_star s t
  have hdigit := any_head?_append_cons hd.digit s t
  have hbreak : c = '\r' ∧ (s ++ d :: t).head? = some '\n' ↔
      c = '\r' ∧ s.head? = some '\n' := by
    refine and_congr_right fun hc => ?_
    cases s with
    | nil => simp [hreturn hc rfl]
    | cons => rfl
  unfold lexeme
  simp only [hslash, hstar, hdigit, hbreak, takeWhile_append_cons hd.spacing,
    takeWhile_append_cons hd.part, numberLexeme_append_cons hd, symbolLexeme_append_cons hd]
  by_cases hcomment : c = '/' ∧ s.head? = some '/'
  · rw [takeWhile_line_append (hline hcomment.1 hcomment.2)]
    simp only [if_pos hcomment]
  by_cases hblock : c = '/' ∧ s.head? = some '*'
  · obtain ⟨rest, rfl⟩ := List.head?_eq_some_iff.mp hblock.2
    rw [List.cons_append, List.tail_cons, List.tail_cons,
      commentLength_append (hclosed rest hblock.1 rfl)]
    simp only [if_neg hcomment, if_pos hblock]
  by_cases hquote : c = '\x22' ∨ c = '\x27'
  · rw [hstring hquote]
    simp only [if_neg hcomment, if_neg hblock]
  · simp only [if_neg hcomment, if_neg hblock, if_neg hquote]

/-- What stands at the front of a text stands there if a line feed follows the text, unless it is a
block comment that is not closed. -/
theorem lexeme_append_feed {kind : Option TokenKind} (h : lexeme c s = .ok (kind, count))
    (hclosed : ∀ rest, c = '/' → s = '*' :: rest → ['*', '/'] <:+: rest) (t : List Char) :
    lexeme c (s ++ '\n' :: t) = .ok (kind, count) := by
  have hreturn (hc : c = '\r') (hs : s = []) : '\n' ≠ '\n' := by
    subst hc hs
    cases h
  -- A string that is taken is closed within the first text.
  have hstring (hquote : c = '\x22' ∨ c = '\x27') :
      stringLexeme c (s ++ '\n' :: t) = stringLexeme c s := by
    have htaken : stringLexeme c s = .ok (kind, count) := by
      rcases hquote with rfl | rfl <;> exact h
    unfold stringLexeme at htaken ⊢
    cases hbody : stringBody? c s with
    | none =>
      rw [hbody] at htaken
      cases htaken
    | some body => rw [(stringBody?_append hbody _).1]
  rw [lexeme_append_cons breaks_feed t (fun _ _ => .inl rfl) hclosed hreturn hstring, h]

/-! ### One text after the other -/

theorem wordKind_ne_eof (word : String) : wordKind word ≠ .eof := by
  unfold wordKind
  repeat' split
  all_goals nofun

theorem exists_of_numberLexeme {found : Option TokenKind}
    (h : numberLexeme c s = .ok (found, count)) : ∃ kind ≠ .eof, found = some kind := by
  unfold numberLexeme at h
  split at h
  · split at h <;> cases h
    refine ⟨_, ?_, rfl⟩
    nofun
  · cases h
    refine ⟨_, ?_, rfl⟩
    nofun

theorem exists_of_stringLexeme {found : Option TokenKind}
    (h : stringLexeme c s = .ok (found, count)) : ∃ kind ≠ .eof, found = some kind := by
  unfold stringLexeme at h
  split at h
  · cases h
  · split at h <;> cases h
    refine ⟨_, ?_, rfl⟩
    nofun

theorem exists_of_symbolLexeme {found : Option TokenKind}
    (h : symbolLexeme c s = .ok (found, count)) : ∃ kind ≠ .eof, found = some kind := by
  unfold symbolLexeme at h
  split at h <;> cases h
  refine ⟨_, ?_, rfl⟩
  nofun

/-- Nothing at the front of a text is the end of it. -/
theorem lexeme_ne_eof (c : Char) (s : List Char) (count : Nat) :
    lexeme c s ≠ .ok (some .eof, count) := by
  intro h
  have hnot : ¬ ∃ kind ≠ .eof, some TokenKind.eof = some kind := by
    rintro ⟨kind, hne, heof⟩
    exact hne (Option.some.inj heof).symm
  unfold lexeme at h
  iterate 5
    split at h
    · cases h
  split at h
  · exact hnot (exists_of_numberLexeme h)
  split at h
  · exact hnot (exists_of_stringLexeme h)
  split at h
  · injection h with h
    injection h with hkind
    injection hkind with hkind
    exact wordKind_ne_eof _ hkind
  · exact hnot (exists_of_symbolLexeme h)

theorem Scans.eof_not_mem {kinds : List TokenKind} (h : Scans s kinds) : .eof ∉ kinds := by
  induction h with
  | done => exact List.not_mem_nil
  | passed _ _ ih => exact ih
  | @token c s kind count kinds h _ ih =>
    have hkind : .eof ≠ kind := by
      rintro rfl
      exact lexeme_ne_eof c s count h
    exact List.not_mem_cons_of_ne_of_not_mem hkind ih

/-- **Scanning stops at a line feed.** A text that does not end within a block comment is cut into
the same tokens where a line feed and others follow it, and after them come the tokens of those. -/
theorem Scans.append_feed {kinds more : List TokenKind} (h : Scans s kinds)
    (hclosed : ¬ OpenComment s) (hmore : Scans ('\n' :: t) more) :
    Scans (s ++ '\n' :: t) (kinds ++ more) := by
  have hcomment {c : Char} {s : List Char} (hclosed : ¬ OpenComment (c :: s)) (rest : List Char)
      (hc : c = '/') (hs : s = '*' :: rest) : ['*', '/'] <:+: rest := by
    subst hc hs
    exact not_not.mp fun hopen => hclosed (.here hopen)
  induction h with
  | done => exact hmore
  | @passed c s count kinds h _ ih =>
    have hlexeme := lexeme_append_feed h (hcomment hclosed) t
    have hdrop : (s ++ '\n' :: t).drop count = s.drop count ++ '\n' :: t :=
      List.drop_append_of_le_length (length_lexeme_le h)
    exact .passed hlexeme (hdrop ▸ ih fun hopen => hclosed (.later h hopen))
  | @token c s kind count kinds h _ ih =>
    have hlexeme := lexeme_append_feed h (hcomment hclosed) t
    have hdrop : (s ++ '\n' :: t).drop count = s.drop count ++ '\n' :: t :=
      List.drop_append_of_le_length (length_lexeme_le h)
    exact .token hlexeme (hdrop ▸ ih fun hopen => hclosed (.later h hopen))

/-- Line feeds and a semicolon between them are tokens of their own. -/
theorem Scans.seam {kinds : List TokenKind} (h : Scans s kinds) :
    Scans ('\n' :: ';' :: '\n' :: s) (.newline :: .symbol .semi :: .newline :: kinds) := by
  have hfeed (t : List Char) : lexeme '\n' t = .ok (some .newline, 0) := rfl
  have hsemi (t : List Char) : lexeme ';' t = .ok (some (.symbol .semi), 0) := rfl
  exact .token (hfeed _) (.token (hsemi _) (.token (hfeed _) h))

end Doctest.Script
