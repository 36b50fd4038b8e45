import Doctest.Proofs.Script.Scanning

/-!
# A closing parenthesis behind a text

A text with a closing parenthesis behind it is cut into the tokens of the text and the parenthesis,
unless the text ends within a comment, which then goes on with the parenthesis.
-/

namespace Doctest.Script

variable {c : Char} {s : List Char} {kind : Option TokenKind} {count : Nat}

/-! ### Texts that end within a comment -/

/-- A text ends within a comment: scanning it comes to the start of one that goes on up to the end
of its line or up to a mark, but there is none behind it. -/
inductive EndsInComment : List Char → Prop
  | line {s : List Char} (h : '\n' ∉ s) : EndsInComment ('/' :: '/' :: s)
  | block {s : List Char} (h : ¬ ['*', '/'] <:+: s) : EndsInComment ('/' :: '*' :: s)
  | later {c : Char} {s : List Char} {kind : Option TokenKind} {count : Nat}
    (h : lexeme c s = .ok (kind, count)) (hrest : EndsInComment (s.drop count)) :
    EndsInComment (c :: s)

/-- A comment starts with a character and others, and goes on behind them. -/
inductive StaysOpen : Char → List Char → Prop
  | line {s : List Char} (h : '\n' ∉ s) : StaysOpen '/' ('/' :: s)
  | block {s : List Char} (h : ¬ ['*', '/'] <:+: s) : StaysOpen '/' ('*' :: s)

theorem StaysOpen.endsInComment (h : StaysOpen c s) : EndsInComment (c :: s) := by
  cases h with
  | line h => exact .line h
  | block h => exact .block h

/-- A block comment that is not closed goes on up to the end. -/
theorem commentLength_of_open (h : ¬ ['*', '/'] <:+: s) : commentLength s = s.length := by
  fun_induction commentLength s with
  | case1 | case2 => rfl
  | case3 c d s hclosed =>
    obtain ⟨rfl, rfl⟩ := hclosed
    exact absurd (List.prefix_append ['*', '/'] s).isInfix h
  | case4 c d s _ ih =>
    have hinside : ¬ ['*', '/'] <:+: d :: s :=
      fun hclosing => h (hclosing.trans (List.suffix_cons c (d :: s)).isInfix)
    simp only [ih hinside, List.length_cons]

theorem StaysOpen.lexeme_eq (h : StaysOpen c s) : lexeme c s = .ok (none, s.length) := by
  cases h with
  | @line s h =>
    have hall : ('/' :: s).takeWhile (· ≠ '\n') = '/' :: s := by
      rw [List.takeWhile_eq_self_iff]
      rintro x hmem
      have hne : x ≠ '\n' := by
        rintro rfl
        exact h ((List.mem_cons.mp hmem).resolve_left (by decide))
      simpa using hne
    change Except.ok (none, (('/' :: s).takeWhile (· ≠ '\n')).length) = _
    rw [hall]
  | @block s h =>
    change Except.ok (none, commentLength s + 1) = _
    rw [commentLength_of_open h, List.length_cons]

/-- A closing parenthesis does not close a comment. -/
theorem StaysOpen.append (h : StaysOpen c s) : StaysOpen c (s ++ [')']) := by
  cases h with
  | line h => exact .line (by simpa using h)
  | @block s h =>
    refine .block fun hclosing => h ?_
    rcases List.infix_concat_iff.mp hclosing with hsuffix | hinside
    · obtain ⟨front, hfront⟩ := hsuffix
      have hlast := congrArg List.getLast? hfront
      simp at hlast
    · exact hinside

/-! ### Strings -/

/-- A closing parenthesis closes no string. -/
theorem stringBody?_append_rparen {quote : Char} (hquote : quote ≠ ')') (s : List Char) :
    stringBody? quote (s ++ [')']) = stringBody? quote s := by
  fun_induction stringBody? quote s with
  | case1 => simp [stringBody?, hquote.symm]
  | case2 s => simp [stringBody?.eq_def]
  | case3 s hne => simp [stringBody?.eq_def, hne]
  | case4 hne hline => simp [stringBody?.eq_def, hne, hline]
  | case5 s hne => simp [stringBody?.eq_def, hne]
  | case6 d s hfeed hne _ ih =>
    rw [List.cons_append, List.cons_append, stringBody?.eq_def]
    simp [hne, hfeed, ih]
  | case7 d s hne hline hescape ih =>
    rw [List.cons_append, stringBody?.eq_def]
    simp [hne, hline, hescape, ih]

/-! ### The tokens -/

theorem lexeme_append_rparen (h : ¬ StaysOpen c s) : lexeme c (s ++ [')']) = lexeme c s := by
  refine lexeme_append_cons breaks_rparen [] ?_ ?_ (fun _ _ => by decide) ?_
  · intro hc hslash
    obtain ⟨rest, rfl⟩ := List.head?_eq_some_iff.mp hslash
    subst hc
    refine .inr (List.mem_cons_of_mem _ (not_not.mp fun hfeed => h (.line hfeed)))
  · intro rest hc hs
    subst hc hs
    exact not_not.mp fun hopen => h (.block hopen)
  · intro hquote
    have hne : c ≠ ')' := by
      rintro rfl
      exact absurd hquote (by decide)
    rw [stringLexeme, stringLexeme, stringBody?_append_rparen hne]

theorem EndsInComment.drop (h : EndsInComment (c :: s)) (hopen : ¬ StaysOpen c s)
    (hlexeme : lexeme c s = .ok (kind, count)) : EndsInComment (s.drop count) := by
  cases h with
  | line h => exact absurd (.line h) hopen
  | block h => exact absurd (.block h) hopen
  | later h hrest =>
    rw [hlexeme] at h
    cases h
    exact hrest

/-- The lexeme at the front of a text, and the tokens behind it. -/
theorem Scans.exists_lexeme {kinds : List TokenKind} (h : Scans (c :: s) kinds) :
    ∃ kind count rest, lexeme c s = .ok (kind, count) ∧ Scans (s.drop count) rest ∧
      kinds = kind.toList ++ rest := by
  cases h with
  | passed h hrest => exact ⟨_, _, _, h, hrest, rfl⟩
  | token h hrest => exact ⟨_, _, _, h, hrest, rfl⟩

theorem Scans.of_lexeme {rest : List TokenKind} (h : lexeme c s = .ok (kind, count))
    (hrest : Scans (s.drop count) rest) : Scans (c :: s) (kind.toList ++ rest) := by
  cases kind with
  | none => exact .passed h hrest
  | some kind => exact .token h hrest

/-- **A closing parenthesis behind a text is a token of its own, or belongs to a comment.** -/
theorem Scans.of_append_rparen {kinds : List TokenKind} (h : Scans (s ++ [')']) kinds) :
    ∃ own, Scans s own ∧ (EndsInComment s ∧ kinds = own ∨
      ¬ EndsInComment s ∧ kinds = own ++ [.symbol .rparen]) := by
  -- By the length of the text: what is left behind its first lexeme is shorter.
  induction hlength : s.length using Nat.strong_induction_on generalizing s kinds with
  | _ n ih =>
    subst hlength
    cases s with
    | nil =>
      obtain ⟨kind, count, rest, hlexeme, hrest, rfl⟩ := h.exists_lexeme
      have hrparen : lexeme ')' [] = .ok (some (.symbol .rparen), 0) := rfl
      rw [hrparen] at hlexeme
      cases hlexeme
      cases hrest
      exact ⟨[], .done, .inr ⟨nofun, rfl⟩⟩
    | cons c s =>
      rw [List.cons_append] at h
      obtain ⟨kind, count, rest, hlexeme, hrest, rfl⟩ := h.exists_lexeme
      by_cases hopen : StaysOpen c s
      · rw [hopen.append.lexeme_eq] at hlexeme
        cases hlexeme
        rw [List.drop_length] at hrest
        cases hrest
        have hdone : Scans (s.drop s.length) [] := by
          rw [List.drop_length]
          exact .done
        exact ⟨[], .passed hopen.lexeme_eq hdone, .inl ⟨hopen.endsInComment, rfl⟩⟩
      · rw [lexeme_append_rparen hopen] at hlexeme
        have hshorter : (s.drop count).length < (c :: s).length := by
          rw [List.length_drop, List.length_cons]
          omega
        rw [List.drop_append_of_le_length (length_lexeme_le hlexeme)] at hrest
        obtain ⟨own, hown, hends⟩ := ih _ hshorter hrest rfl
        refine ⟨kind.toList ++ own, .of_lexeme hlexeme hown, ?_⟩
        rcases hends with ⟨hin, rfl⟩ | ⟨hout, rfl⟩
        · exact .inl ⟨.later hlexeme hin, rfl⟩
        · refine .inr ⟨fun hends => hout (hends.drop hopen hlexeme), ?_⟩
          rw [List.append_assoc]

/-- A text in parentheses is cut into an opening parenthesis and the tokens of the text, and the
closing one unless it belongs to a comment. -/
theorem Scans.of_group {kinds : List TokenKind} (h : Scans ('(' :: (s ++ [')'])) kinds) :
    ∃ own, Scans s own ∧ (EndsInComment s ∧ kinds = .symbol .lparen :: own ∨
      ¬ EndsInComment s ∧ kinds = .symbol .lparen :: (own ++ [.symbol .rparen])) := by
  obtain ⟨kind, count, rest, hlexeme, hrest, rfl⟩ := h.exists_lexeme
  have hlparen : lexeme '(' (s ++ [')']) = .ok (some (.symbol .lparen), 0) := rfl
  rw [hlparen] at hlexeme
  cases hlexeme
  obtain ⟨own, hown, hends⟩ := Scans.of_append_rparen hrest
  refine ⟨own, hown, hends.imp ?_ ?_⟩
  · rintro ⟨hin, rfl⟩
    exact ⟨hin, rfl⟩
  · rintro ⟨hout, rfl⟩
    exact ⟨hout, rfl⟩

end Doctest.Script
