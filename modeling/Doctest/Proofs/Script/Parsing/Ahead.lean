import Doctest.Proofs.Script.Parsing.Grammar

/-!
# What a parser sees of the tokens ahead

Most parsers look at the next token and at the next one that is no line break. Whether an arrow
function or an object begins is decided further ahead, but among the tokens that are read as one, in
which each bracket has its partner, and before the end.
-/

namespace Doctest.Script

/-! ### Tokens that come next -/

/-- The end is among some tokens. -/
def Ended (tokens : List Token) : Prop :=
  ∃ token ∈ tokens, token.kind = .eof

theorem Ended.exists_cons {tokens : List Token} (h : Ended tokens) :
    ∃ first more, tokens = first :: more := by
  obtain ⟨token, hmem, -⟩ := h
  exact List.exists_cons_of_ne_nil (List.ne_nil_of_mem hmem)

/-- Tokens without the end are before it. -/
theorem Ended.of_append {taken rest : List Token} (h : Ended (taken ++ rest))
    (htaken : ∀ token ∈ taken, token.kind ≠ .eof) : Ended rest := by
  obtain ⟨token, hmem, heof⟩ := h
  cases List.mem_append.mp hmem with
  | inl hfirst => exact absurd heof (htaken token hfirst)
  | inr hrest => exact ⟨token, hrest, heof⟩

theorem Ended.tail {token : Token} {more : List Token} (h : Ended (token :: more))
    (htoken : token.kind ≠ .eof) : Ended more := by
  have hsplit : Ended ([token] ++ more) := h
  exact hsplit.of_append (by simpa using htoken)

/-- The tokens behind line breaks. -/
abbrev pastFeeds (tokens : List Token) : List Token :=
  tokens.dropWhile (·.kind = .newline)

/-- The same token comes first, and the same one behind line breaks. -/
structure Alike (first second : List Token) : Prop where
  head : first.head? = second.head?
  past : (pastFeeds first).head? = (pastFeeds second).head?

namespace Alike

variable {first second : List Token} {c d : Cursor}

theorem refl (tokens : List Token) : Alike tokens tokens :=
  ⟨rfl, rfl⟩

theorem symm (h : Alike first second) : Alike second first :=
  ⟨h.head.symm, h.past.symm⟩

theorem cons {token : Token} (h : Alike first second) :
    Alike (token :: first) (token :: second) := by
  refine ⟨rfl, ?_⟩
  by_cases hfeed : token.kind = .newline
  · simpa [pastFeeds, hfeed] using h.past
  · simp [pastFeeds, hfeed]

theorem append (h : Alike first second) (taken : List Token) :
    Alike (taken ++ first) (taken ++ second) := by
  induction taken with
  | nil => exact h
  | cons token taken ih => exact ih.cons

/-- Nothing comes next but what stands before the end. -/
theorem of_ended {tokens : List Token} (h : Ended tokens) (more : List Token) :
    Alike tokens (tokens ++ more) := by
  induction tokens with
  | nil =>
    obtain ⟨first, rest, hnil⟩ := h.exists_cons
    cases hnil
  | cons token tokens ih =>
    by_cases hend : token.kind = .eof
    · refine ⟨rfl, ?_⟩
      simp [pastFeeds, hend]
    · exact (ih (h.tail hend)).cons

theorem current {token : Token} {more : List Token} (h : Alike c.rest (token :: more)) :
    c.current = token := by
  obtain ⟨others, hothers⟩ := List.head?_eq_some_iff.mp h.head
  rw [Cursor.current, hothers, List.headD_cons]

theorem kindAt_zero (h : Alike c.rest d.rest) : c.kindAt 0 = d.kindAt 0 := by
  rw [Cursor.kindAt, Cursor.kindAt, ← List.head?_eq_getElem?, ← List.head?_eq_getElem?, h.head]

theorem kindPastNewlines (h : Alike c.rest d.rest) : c.kindPastNewlines = d.kindPastNewlines := by
  rw [Cursor.kindPastNewlines_eq, Cursor.kindPastNewlines_eq, Cursor.kindAt, Cursor.kindAt,
    ← List.head?_eq_getElem?, ← List.head?_eq_getElem?]
  exact congrArg (fun head : Option Token => (head.map Token.kind).getD .eof) h.past

theorem continues (h : Alike c.rest d.rest) : c.continues = d.continues := by
  rw [Cursor.continues, Cursor.continues, h.kindPastNewlines]

end Alike

/-! ### Looking further ahead -/

section Ahead

variable {tokens own rest others : List Token} {first : Token}

/-- What is behind the end does not make an arrow function of what begins before it. -/
theorem arrowAfterGroup_append (h : Ended tokens) (depth : Nat) (more : List Token) :
    arrowAfterGroup depth (tokens ++ more) = arrowAfterGroup depth tokens := by
  induction tokens generalizing depth with
  | nil =>
    obtain ⟨first, rest, hnil⟩ := h.exists_cons
    cases hnil
  | cons token tokens ih =>
    have hnext (heof : token.kind ≠ .eof) (depth : Nat) :
        arrowAfterGroup depth (tokens ++ more) = arrowAfterGroup depth tokens :=
      ih (h.tail heof) depth
    rw [List.cons_append, arrowAfterGroup, arrowAfterGroup]
    split
    · next hopen => exact hnext (by simp [hopen]) _
    · next hclose =>
      have heof : token.kind ≠ .eof := by simp [hclose]
      obtain ⟨next, rest, rfl⟩ := (h.tail heof).exists_cons
      rw [hnext heof]
      rfl
    · rfl
    · next heof => exact hnext heof _

theorem startsArrow_append (h : Ended tokens) (last : Span) (more : List Token) :
    Cursor.startsArrow ⟨last, tokens ++ more⟩ = Cursor.startsArrow ⟨⟨0, 0⟩, tokens⟩ := by
  obtain ⟨first, rest, rfl⟩ := h.exists_cons
  have hkind (last : Span) (rest : List Token) :
      (Cursor.mk last (first :: rest)).kindAt 0 = first.kind :=
    rfl
  rw [Cursor.startsArrow, Cursor.startsArrow, List.cons_append, hkind, hkind]
  split
  · next hident =>
    obtain ⟨next, rest, rfl⟩ := (h.tail (by simp [hident])).exists_cons
    rfl
  · rw [← List.cons_append]
    exact arrowAfterGroup_append h 0 more
  · rfl

/-- Groups among tokens in which each bracket has its partner are closed there. -/
theorem Matched.enclosed (h : Matched own) : Enclosed (own.map Token.kind) := by
  induction h with
  | nil => exact .nil
  | @flat token rest hflat _ ih =>
    refine Enclosed.plain ⟨?_, ?_, ?_⟩ ih <;>
    · intro hkind
      rw [hkind] at hflat
      cases hflat
  | @pair first last left right inside rest hpartner hfirst _ hlast _ ihinside ih =>
    rw [List.map_cons, List.map_append, List.map_cons, hfirst, hlast]
    by_cases hparen : left = .lparen
    · subst hparen
      cases hpartner
      have hgroup := ihinside.group.append ih
      rwa [List.cons_append, List.append_assoc] at hgroup
    · have hright : right ≠ .rparen := by
        rintro rfl
        cases left <;> first | exact hparen rfl | cases hpartner
      have hplain {mark : Symbol} (hopen : mark ≠ .lparen) (hclose : mark ≠ .rparen) :
          (TokenKind.symbol mark).Plain :=
        ⟨nofun, fun h => hopen (TokenKind.symbol.inj h), fun h => hclose (TokenKind.symbol.inj h)⟩
      have hleft : left ≠ .rparen := by
        rintro rfl
        cases hpartner
      have hright' : right ≠ .lparen := by
        rintro rfl
        cases left <;> cases hpartner
      exact Enclosed.plain (hplain hparen hleft) (ihinside.between (hplain hright' hright) ih)

/-- A bracket at the front of tokens in which each has its partner has it there. -/
theorem Matched.exists_pair {left right : Symbol} (h : Matched (first :: own))
    (hfirst : first.kind = .symbol left) (hpartner : left.partner? = some right) :
    ∃ inside last rest, own = inside ++ last :: rest ∧ Matched inside ∧
      last.kind = .symbol right := by
  cases h with
  | flat hflat =>
    rw [hfirst, TokenKind.isFlat, hpartner] at hflat
    cases hflat
  | @pair _ last left' right' inside rest hpartner' hfirst' hinside hlast =>
    obtain rfl : left = left' := TokenKind.symbol.inj (hfirst.symm.trans hfirst')
    obtain rfl : right = right' := Option.some.inj (hpartner.symm.trans hpartner')
    exact ⟨inside, last, rest, rfl, hinside, hlast⟩

/-- Whether tokens in which each bracket has its partner begin an arrow function is decided by them
and the next token. -/
theorem Matched.startsArrow (h : Matched own) (hown : own ≠ []) (hhead : rest.head? = others.head?)
    (last last' : Span) :
    Cursor.startsArrow ⟨last, own ++ rest⟩ = Cursor.startsArrow ⟨last', own ++ others⟩ := by
  obtain ⟨first, more, rfl⟩ := List.exists_cons_of_ne_nil hown
  by_cases hparen : first.kind = .symbol .lparen
  · obtain ⟨inside, close, behind, rfl, hinside, hclose⟩ := h.exists_pair hparen rfl
    have hgroup (last : Span) (rest : List Token) :
        Cursor.startsArrow ⟨last, first :: (inside ++ close :: behind) ++ rest⟩ =
          decide (((behind ++ rest).map Token.kind).head? = some (.symbol .arrow)) := by
      refine startsArrow_group hinside.enclosed ?_
      rw [Cursor.kinds, List.cons_append, List.append_assoc, List.cons_append, List.map_cons,
        List.map_append, List.map_cons, hparen, hclose]
    have hnext : ((behind ++ rest).map Token.kind).head? =
        ((behind ++ others).map Token.kind).head? := by
      rw [List.head?_map, List.head?_map, List.head?_append, List.head?_append, hhead]
    rw [hgroup, hgroup, hnext]
  · have hnext (last : Span) (rest : List Token) :
        (Cursor.mk last (first :: more ++ rest)).kindAt 1 =
          (((more ++ rest).head?).map Token.kind).getD .eof := by
      rw [List.head?_eq_getElem?]
      rfl
    have hkind (last : Span) (rest : List Token) :
        (Cursor.mk last (first :: more ++ rest)).kindAt 0 = first.kind :=
      rfl
    rw [Cursor.startsArrow, Cursor.startsArrow, hkind, hkind, hnext, hnext, List.head?_append,
      List.head?_append, hhead]
    split
    · rfl
    · next h => exact absurd h hparen
    · rfl

/-- Among tokens that are not all line breaks there is a first one that is none. -/
theorem exists_past_feeds (h : ∃ token ∈ own, token.kind ≠ .newline) :
    ∃ gap token more, own = gap ++ token :: more ∧ Feeds gap ∧ token.kind ≠ .newline := by
  induction own with
  | nil =>
    obtain ⟨token, hmem, -⟩ := h
    cases hmem
  | cons first own ih =>
    by_cases hfeed : first.kind = .newline
    · obtain ⟨token, hmem, hne⟩ := h
      have hlater : token ∈ own := by
        refine (List.mem_cons.mp hmem).resolve_left ?_
        rintro rfl
        exact hne hfeed
      obtain ⟨gap, next, more, rfl, hgap, hnext⟩ := ih ⟨token, hlater, hne⟩
      exact ⟨first :: gap, next, more, rfl, List.forall_mem_cons.mpr ⟨hfeed, hgap⟩, hnext⟩
    · exact ⟨[], first, own, rfl, .nil, hfeed⟩

theorem Feeds.pastNewlines_rest {gap : List Token} (h : Feeds gap) (hfirst : first.kind ≠ .newline)
    (last : Span) : (Cursor.mk last (gap ++ first :: rest)).pastNewlines.rest = first :: rest := by
  rw [Cursor.pastNewlines, Cursor.skipWhile]
  dsimp only
  rw [List.dropWhile_append_of_pos fun token hmem => decide_eq_true (h token hmem),
    List.dropWhile_cons_of_neg (by simpa using hfirst)]

theorem Feeds.kindPastNewlines {gap : List Token} (h : Feeds gap) (hfirst : first.kind ≠ .newline)
    (last : Span) : (Cursor.mk last (gap ++ first :: rest)).kindPastNewlines = first.kind := by
  rw [Cursor.kindPastNewlines_eq, Cursor.kindAt, h.pastNewlines_rest hfirst]
  rfl

/-- Whether a brace opens an object is decided before the next closing brace and before the end. -/
theorem startsObject_append (hfirst : first.kind = .symbol .lbrace)
    (hown : ∃ token ∈ own, token.kind = .symbol .rbrace ∨ token.kind = .eof) (last last' : Span)
    (rest others : List Token) :
    Cursor.startsObject ⟨last, first :: (own ++ rest)⟩ =
      Cursor.startsObject ⟨last', first :: (own ++ others)⟩ := by
  obtain ⟨stop, hstop, hkinds⟩ := hown
  have hne : stop.kind ≠ .newline := by
    rcases hkinds with hkind | hkind <;> rw [hkind] <;> nofun
  obtain ⟨gap, next, more, rfl, hgap, hnext⟩ := exists_past_feeds ⟨stop, hstop, hne⟩
  have hinside (last : Span) (rest : List Token) :
      (Cursor.mk last (first :: (gap ++ next :: more ++ rest))).advance.pastNewlines.rest =
        next :: (more ++ rest) := by
    have hadvance : (Cursor.mk last (first :: (gap ++ next :: more ++ rest))).advance =
        ⟨first.span, gap ++ next :: (more ++ rest)⟩ := by
      rw [List.append_assoc, List.cons_append]
      exact if_neg (hfirst ▸ nofun)
    rw [hadvance, hgap.pastNewlines_rest hnext]
  have hkey (last : Span) (rest : List Token) :
      let c : Cursor := ⟨last, first :: (gap ++ next :: more ++ rest)⟩
      c.advance.kindAt c.advance.newlines = next.kind ∧
        c.advance.kindAt (c.advance.newlines + 1) =
          ((more ++ rest).head?.map Token.kind).getD .eof := by
    refine ⟨(Cursor.kindAt_newlines_add _ 0).trans ?_, (Cursor.kindAt_newlines_add _ 1).trans ?_⟩
    · rw [Cursor.kindAt, hinside]
      rfl
    · rw [Cursor.kindAt, hinside, List.head?_eq_getElem?]
      rfl
  unfold Cursor.startsObject
  dsimp only at hkey ⊢
  rw [(hkey last rest).1, (hkey last rest).2, (hkey last' others).1, (hkey last' others).2]
  cases more with
  | nil =>
    have hlast : stop = next := by
      have hmem := (List.mem_append.mp hstop).resolve_left fun hin => hne (hgap stop hin)
      simpa using hmem
    rw [← hlast]
    rcases hkinds with hkind | hkind <;> rw [hkind]
  | cons => rfl

end Ahead
end Doctest.Script
