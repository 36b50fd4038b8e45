import Doctest.Proofs.Script.Comments
import Doctest.Proofs.Script.Places
import Doctest.Proofs.Script.Slices

/-!
# Tokens tile their text

The tokens of a text stand for disjoint parts of it, in order, and between them there is nothing but
blanks within a line and comments. Each token is also what its own part of the text is cut into.
-/

namespace Doctest.Script

variable {c : Char} {s gap own behind : List Char} {kind : TokenKind} {count offset : Nat}
  {atEnd : Prop}

/-! ### What is passed over -/

/-- What may stand in front of a token: blanks within a line and comments. A comment that goes on up
to the end of its line is the last of them, and a comment that is not closed is only allowed in
front of the end. -/
inductive Skipped (atEnd : Prop) : List Char → Prop
  | nothing : Skipped atEnd []
  | blank {c : Char} {s : List Char} (hc : c = ' ' ∨ c = '\t' ∨ c = '\x0c')
    (h : Skipped atEnd s) : Skipped atEnd (c :: s)
  | block {body s : List Char} (hbody : ¬ ['*', '/'] <:+: body ++ ['*']) (h : Skipped atEnd s) :
    Skipped atEnd ('/' :: '*' :: (body ++ '*' :: '/' :: s))
  | line {body : List Char} (hbody : '\n' ∉ body) : Skipped atEnd ('/' :: '/' :: body)
  | unclosed {body : List Char} (hend : atEnd) (hbody : ¬ ['*', '/'] <:+: body) :
    Skipped atEnd ('/' :: '*' :: body)

/-- No line break is passed over as such. -/
theorem Skipped.head?_ne_feed (h : Skipped atEnd s) : s.head? ≠ some '\n' := by
  cases h with
  | nothing => exact nofun
  | @blank c s hc =>
    rintro hfeed
    rw [Option.some.inj hfeed] at hc
    revert hc
    decide
  | block | line | unclosed => exact fun hfeed => absurd (Option.some.inj hfeed) (by decide)

theorem Skipped.mono {more : Prop} (h : Skipped atEnd s) (hmore : atEnd → more) :
    Skipped more s := by
  induction h with
  | nothing => exact .nothing
  | blank hc _ ih => exact .blank hc ih
  | block hbody _ ih => exact .block hbody ih
  | line hbody => exact .line hbody
  | unclosed hend hbody => exact .unclosed (hmore hend) hbody

theorem Skipped.blanks (h : ∀ c ∈ s, isSpacing c = true) (hgap : Skipped atEnd gap) :
    Skipped atEnd (s ++ gap) := by
  induction s with
  | nil => exact hgap
  | cons c s ih =>
    obtain ⟨hc, hs⟩ := List.forall_mem_cons.mp h
    refine .blank ?_ (ih hs)
    simpa [isSpacing, or_assoc] using hc

/-- A block comment goes on up to where it is closed first. -/
theorem commentLength_of_closed (h : ['*', '/'] <:+: s) :
    ∃ body rest, s = body ++ '*' :: '/' :: rest ∧ commentLength s = body.length + 2 ∧
      ¬ ['*', '/'] <:+: body ++ ['*'] := by
  fun_induction commentLength s with
  | case1 => simp at h
  | case2 c =>
    have hlength := h.length_le
    simp at hlength
  | case3 c d s hclosed =>
    obtain ⟨rfl, rfl⟩ := hclosed
    refine ⟨[], s, rfl, rfl, fun hinside => ?_⟩
    have hlength := hinside.length_le
    simp at hlength
  | case4 c d s hopen ih =>
    have hinside : ['*', '/'] <:+: d :: s := by
      rcases List.infix_cons_iff.mp h with hfront | hinside
      · obtain ⟨rfl, hrest⟩ := List.cons_prefix_cons.mp hfront
        obtain ⟨rfl, -⟩ := List.cons_prefix_cons.mp hrest
        exact absurd ⟨rfl, rfl⟩ hopen
      · exact hinside
    obtain ⟨body, rest, hsplit, hlength, hfirst⟩ := ih hinside
    refine ⟨c :: body, rest, by rw [hsplit, List.cons_append], ?_, fun hearlier => ?_⟩
    · simp only [hlength, List.length_cons]
    · rw [List.cons_append] at hearlier
      rcases List.infix_cons_iff.mp hearlier with hfront | hlater
      · -- The comment would be closed by the first two characters.
        obtain ⟨rfl, hrest⟩ := List.cons_prefix_cons.mp hfront
        cases body with
        | nil =>
          obtain ⟨hslash, -⟩ := List.cons_prefix_cons.mp hrest
          cases hslash
        | cons e body =>
          obtain ⟨rfl, -⟩ := List.cons_prefix_cons.mp hrest
          obtain ⟨rfl, -⟩ := List.cons.inj hsplit
          exact hopen ⟨rfl, rfl⟩
      · exact hfirst hlater

/-- What is passed over at once, in front of some text. -/
inductive Passes : List Char → List Char → Prop
  | blanks {own behind : List Char} (h : ∀ c ∈ own, isSpacing c = true) : Passes own behind
  | block {body behind : List Char} (hbody : ¬ ['*', '/'] <:+: body ++ ['*']) :
    Passes ('/' :: '*' :: (body ++ ['*', '/'])) behind
  | line {body behind : List Char} (hbody : '\n' ∉ body)
    (hbehind : ∀ c ∈ behind.head?, c = '\n') : Passes ('/' :: '/' :: body) behind
  | unclosed {body : List Char} (hbody : ¬ ['*', '/'] <:+: body) : Passes ('/' :: '*' :: body) []

theorem drop_length_takeWhile (p : Char → Bool) (s : List Char) :
    s.drop (s.takeWhile p).length = s.dropWhile p :=
  calc s.drop (s.takeWhile p).length
    _ = (s.takeWhile p ++ s.dropWhile p).drop (s.takeWhile p).length := by
      rw [List.takeWhile_append_dropWhile]
    _ = s.dropWhile p := List.drop_left

/-- Behind a comment that goes on up to the end of its line the line ends. -/
theorem passes_line (rest : List Char) :
    Passes ('/' :: ('/' :: rest).take (('/' :: rest).takeWhile (· ≠ '\n')).length)
      (('/' :: rest).drop (('/' :: rest).takeWhile (· ≠ '\n')).length) := by
  have hown : ('/' :: rest).takeWhile (· ≠ '\n') = '/' :: rest.takeWhile (· ≠ '\n') :=
    List.takeWhile_cons_of_pos (by decide)
  rw [drop_length_takeWhile, ← List.prefix_iff_eq_take.mp (List.takeWhile_prefix _), hown]
  refine .line (fun hmem => ?_) fun d hd => ?_
  · have hne := List.mem_takeWhile_imp hmem
    simp at hne
  · have hnot := List.head?_dropWhile_not (· ≠ '\n') ('/' :: rest)
    rw [Option.mem_def.mp hd] at hnot
    simpa using hnot

/-- A block comment goes on up to where it is closed, or up to the end. -/
theorem passes_block (rest : List Char) :
    Passes ('/' :: '*' :: rest.take (commentLength rest)) (rest.drop (commentLength rest)) := by
  by_cases hclosed : ['*', '/'] <:+: rest
  · obtain ⟨body, more, rfl, hlength, hfirst⟩ := commentLength_of_closed hclosed
    have hsplit : body ++ '*' :: '/' :: more = (body ++ ['*', '/']) ++ more := by simp
    rw [hsplit, ← hsplit, hlength, hsplit, List.take_left' (by simp), List.drop_left' (by simp)]
    exact .block hfirst
  · rw [commentLength_of_open hclosed, List.take_length, List.drop_length]
    exact .unclosed hclosed

theorem passes_of_lexeme (h : lexeme c s = .ok (none, count)) :
    Passes (c :: s.take count) (s.drop count) := by
  unfold lexeme at h
  split at h
  · next hspacing =>
    cases h
    refine .blanks (List.forall_mem_cons.mpr ⟨hspacing, fun d hmem => ?_⟩)
    rw [← List.prefix_iff_eq_take.mp (List.takeWhile_prefix _)] at hmem
    exact List.mem_takeWhile_imp hmem
  split at h
  · cases h
  split at h
  · cases h
  split at h
  · next hline =>
    obtain ⟨rfl, hslash⟩ := hline
    obtain ⟨rest, rfl⟩ := List.head?_eq_some_iff.mp hslash
    cases h
    exact passes_line rest
  split at h
  · next hblock =>
    obtain ⟨rfl, hstar⟩ := hblock
    obtain ⟨rest, rfl⟩ := List.head?_eq_some_iff.mp hstar
    cases h
    exact passes_block rest
  split at h
  · obtain ⟨kind, -, hsome⟩ := exists_of_numberLexeme h
    cases hsome
  split at h
  · obtain ⟨kind, -, hsome⟩ := exists_of_stringLexeme h
    cases hsome
  split at h
  · cases h
  · obtain ⟨kind, -, hsome⟩ := exists_of_symbolLexeme h
    cases hsome

/-- What is passed over and what may stand behind it may stand together. -/
theorem Passes.skipped (h : Passes own (gap ++ behind)) (hgap : Skipped atEnd gap)
    (hend : gap ++ behind = [] → atEnd) : Skipped atEnd (own ++ gap) := by
  generalize hall : gap ++ behind = all at h hend
  cases h with
  | blanks hown => exact hgap.blanks hown
  | block hbody =>
    rw [List.cons_append, List.cons_append, List.append_assoc]
    exact .block hbody hgap
  | line hbody hbehind =>
    cases gap with
    | nil =>
      rw [List.append_nil]
      exact .line hbody
    | cons d gap =>
      subst hall
      exact absurd (congrArg some (hbehind d rfl)) hgap.head?_ne_feed
  | unclosed hbody =>
    obtain ⟨rfl, -⟩ := List.append_eq_nil_iff.mp hall
    rw [List.append_nil]
    exact .unclosed (hend rfl) hbody

/-! ### Tokens and what is between them -/

/-- A text from an offset on is cut into tokens: each of them stands behind what is passed over, and
is what its own text is cut into. -/
inductive Tiles : Nat → List Char → List Token → Prop
  | done {offset : Nat} {gap : List Char} (hgap : Skipped True gap) :
    Tiles offset gap [⟨.eof, offset + Text.byteSize gap, offset + Text.byteSize gap⟩]
  | token {offset : Nat} {gap own rest : List Char} {kind : TokenKind} {found : List Token}
    (hgap : Skipped False gap) (hne : own ≠ []) (hkind : kind ≠ .eof)
    (halone : tokens (String.ofList own) = .ok [⟨kind, 0, Text.byteSize own⟩,
      ⟨.eof, Text.byteSize own, Text.byteSize own⟩])
    (hrest : Tiles (offset + Text.byteSize (gap ++ own)) rest found) :
    Tiles offset (gap ++ (own ++ rest))
      (⟨kind, offset + Text.byteSize gap, offset + Text.byteSize (gap ++ own)⟩ :: found)

theorem tokens_of_lexeme (h : lexeme c s = .ok (some kind, count)) :
    tokens (String.ofList (c :: s.take count)) =
      .ok [⟨kind, 0, Text.byteSize (c :: s.take count)⟩,
        ⟨.eof, Text.byteSize (c :: s.take count), Text.byteSize (c :: s.take count)⟩] := by
  have hall : (s.take count).take count = s.take count := by rw [List.take_take, Nat.min_self]
  have hnone : (s.take count).drop count = [] :=
    List.drop_eq_nil_of_le (List.length_take_le count s)
  rw [tokens, String.toList_ofList, tokensFrom, lexeme_take h]
  dsimp only
  rw [hall, hnone, tokensFrom, Nat.zero_add]

theorem Tiles.passed {found : List Token} (h : Passes own s)
    (htiles : Tiles (offset + Text.byteSize own) s found) : Tiles offset (own ++ s) found := by
  generalize hstart : offset + Text.byteSize own = start at htiles
  cases htiles with
  | done hgap =>
    subst hstart
    rw [← List.append_nil s] at h
    have hmore : Skipped True (own ++ s) := h.skipped hgap fun _ => trivial
    rw [Nat.add_assoc, ← Text.byteSize_append]
    exact .done hmore
  | @token _ gap text rest kind found hgap hne hkind halone hrest =>
    subst hstart
    have hmore : Skipped False (own ++ gap) := by
      refine h.skipped hgap fun hnone => hne ?_
      exact (List.append_eq_nil_iff.mp (List.append_eq_nil_iff.mp hnone).2).1
    have hstart : offset + Text.byteSize own + Text.byteSize gap =
        offset + Text.byteSize (own ++ gap) := by
      rw [Text.byteSize_append, Nat.add_assoc]
    have hstop : offset + Text.byteSize own + Text.byteSize (gap ++ text) =
        offset + Text.byteSize (own ++ gap ++ text) := by
      rw [List.append_assoc, Text.byteSize_append own, Nat.add_assoc]
    rw [hstart, hstop, ← List.append_assoc]
    exact .token hmore hne hkind halone (hstop ▸ hrest)

theorem tiles_of_tokensFrom {found : List Token} (h : tokensFrom offset s = .ok found) :
    Tiles offset s found := by
  fun_induction tokensFrom offset s generalizing found with
  | case1 offset =>
    cases h
    exact .done .nothing
  | case2 => cases h
  | case3 => cases h
  | case4 offset c s count stop tokens hrest hlexeme =>
    rename_i ih
    cases h
    have htiles := Tiles.passed (passes_of_lexeme hlexeme) (ih hrest)
    rwa [List.cons_append, List.take_append_drop] at htiles
  | case5 offset c s count stop kind tokens hrest hlexeme =>
    rename_i ih
    cases h
    have hkind : kind ≠ .eof := by
      rintro rfl
      exact lexeme_ne_eof c s count hlexeme
    have htiles :=
      Tiles.token .nothing (List.cons_ne_nil _ _) hkind (tokens_of_lexeme hlexeme) (ih hrest)
    rwa [List.nil_append, List.cons_append, List.take_append_drop] at htiles

section Places

variable {found : List Token} {before : List Char}

/-- A token stands for some characters of a text, which by themselves are cut into it alone. -/
def Alone (source : List Char) (token : Token) : Prop :=
  ∃ own, own ≠ [] ∧ Covers source token.span own ∧
    tokens (String.ofList own) = .ok [⟨token.kind, 0, Text.byteSize own⟩,
      ⟨.eof, Text.byteSize own, Text.byteSize own⟩]

theorem Tiles.exists_own (h : Tiles offset s found) :
    ∃ own, found = own ++ [⟨.eof, offset + Text.byteSize s, offset + Text.byteSize s⟩] ∧
      ∀ token ∈ own, token.kind ≠ .eof := by
  induction h with
  | done hgap => exact ⟨[], rfl, nofun⟩
  | @token offset gap own rest kind found hgap hne hkind halone hrest ih =>
    obtain ⟨others, rfl, hothers⟩ := ih
    have hstop : offset + Text.byteSize (gap ++ own) + Text.byteSize rest =
        offset + Text.byteSize (gap ++ (own ++ rest)) := by
      rw [← List.append_assoc, Text.byteSize_append (gap ++ own), Nat.add_assoc]
    rw [hstop, ← List.cons_append]
    exact ⟨_ :: others, rfl, List.forall_mem_cons.mpr ⟨hkind, hothers⟩⟩

theorem Tiles.alone (h : Tiles offset s found) (hbefore : Text.byteSize before = offset) :
    ∀ token ∈ found, token.kind ≠ .eof → Alone (before ++ s) token := by
  induction h generalizing before with
  | done hgap => exact List.forall_mem_singleton.mpr fun hkind => absurd rfl hkind
  | @token offset gap own rest kind found hgap hne hkind halone hrest ih =>
    subst hbefore
    refine List.forall_mem_cons.mpr ⟨fun _ => ⟨own, hne, ⟨before ++ gap, rest, ?_, ?_⟩, halone⟩, ?_⟩
    · rw [List.append_assoc]
    · rw [List.append_assoc, Text.byteSize_append before, Text.byteSize_append before]
    · have hrest := ih (Text.byteSize_append before (gap ++ own))
      simpa only [List.append_assoc] using hrest

theorem Tiles.le_start (h : Tiles offset s found) :
    ∀ token ∈ found, offset ≤ token.span.start := by
  induction h with
  | done hgap => exact List.forall_mem_singleton.mpr (Nat.le_add_right _ _)
  | token hgap hne hkind halone hrest ih =>
    refine List.forall_mem_cons.mpr ⟨Nat.le_add_right _ _, fun token hmem => ?_⟩
    exact (Nat.le_add_right _ _).trans (ih token hmem)

theorem Tiles.increasing (h : Tiles offset s found) :
    found.Pairwise fun first second => first.span.stop ≤ second.span.start := by
  induction h with
  | done hgap => exact List.pairwise_singleton _ _
  | token hgap hne hkind halone hrest ih => exact List.pairwise_cons.mpr ⟨hrest.le_start, ih⟩

/-- Where the last of some tokens ends; if there are none, where they would start. -/
def stopOf (offset : Nat) (front : List Token) : Nat :=
  (front.getLast?.map (·.span.stop)).getD offset

theorem stopOf_cons (offset : Nat) (token : Token) (front : List Token) :
    stopOf offset (token :: front) = stopOf token.span.stop front := by
  rw [stopOf, stopOf, List.getLast?_cons]
  cases front.getLast? <;> rfl

theorem Tiles.between (h : Tiles offset s found) (hbefore : Text.byteSize before = offset)
    {front rest : List Token} {token : Token} (hfound : found = front ++ token :: rest) :
    ∃ gap, Covers (before ++ s) ⟨stopOf offset front, token.span.start⟩ gap ∧
      Skipped (token.kind = .eof) gap := by
  induction h generalizing before front with
  | @done offset gap hgap =>
    subst hbefore
    obtain ⟨rfl, hlast⟩ | ⟨-, hnone⟩ := List.append_eq_singleton_iff.mp hfound.symm
    · obtain ⟨rfl, -⟩ := List.cons.inj hlast
      refine ⟨gap, ⟨before, [], by rw [List.append_nil], ?_⟩, hgap.mono fun _ => rfl⟩
      rw [Text.byteSize_append before gap]
      rfl
    · cases hnone
  | @token offset gap own others kind found hgap hne hkind halone hrest ih =>
    subst hbefore
    cases front with
    | nil =>
      obtain ⟨rfl, rfl⟩ := List.cons.inj hfound
      refine ⟨gap, ⟨before, own ++ others, rfl, ?_⟩, hgap.mono False.elim⟩
      rw [Text.byteSize_append before gap]
      rfl
    | cons first front =>
      obtain ⟨rfl, rfl⟩ := List.cons.inj hfound
      have hlater := ih (Text.byteSize_append before (gap ++ own)) rfl
      rw [stopOf_cons]
      simpa only [List.append_assoc] using hlater

end Places

/-- The tokens of a text tile it. -/
structure Tiled (source : String) (found : List Token) : Prop where
  /-- The end comes last, and only there; it takes nothing. -/
  ends : ∃ own, found = own ++ [⟨.eof, source.utf8ByteSize, source.utf8ByteSize⟩] ∧
    ∀ token ∈ own, token.kind ≠ .eof
  /-- Tokens begin and end between characters. -/
  within : ∀ token ∈ found, token.span.Within source
  /-- All tokens but the end take something. -/
  nonempty : ∀ token ∈ found, token.kind ≠ .eof → token.span.start < token.span.stop
  /-- No token begins before those in front of it end. -/
  increasing : found.Pairwise fun first second => first.span.stop ≤ second.span.start
  /-- Between a token and the one in front of it there are only blanks and comments. -/
  between : ∀ front token rest, found = front ++ token :: rest →
    ∃ gap, Covers source.toList ⟨stopOf 0 front, token.span.start⟩ gap ∧
      Skipped (token.kind = .eof) gap
  /-- The text of each token is cut into that token alone. -/
  alone : ∀ token ∈ found, token.kind ≠ .eof → Alone source.toList token

/-- **Tokens tile their text.** -/
theorem tokens_tile {source : String} {found : List Token} (h : tokens source = .ok found) :
    Tiled source found := by
  have htiles := tiles_of_tokensFrom h
  have hbefore : Text.byteSize [] = 0 := rfl
  have halone : ∀ token ∈ found, token.kind ≠ .eof → Alone source.toList token :=
    htiles.alone hbefore
  obtain ⟨own, hfound, hown⟩ := htiles.exists_own
  rw [Nat.zero_add, Text.byteSize_toList] at hfound
  refine ⟨⟨own, hfound, hown⟩, fun token hmem => ?_, fun token hmem hkind => ?_,
    htiles.increasing, fun front token rest => htiles.between hbefore, halone⟩
  · rw [hfound] at hmem
    rcases List.mem_append.mp hmem with hin | hend
    · obtain ⟨text, -, hcovers, -⟩ := halone token (hfound ▸ hmem) (hown token hin)
      exact hcovers.within
    · rw [List.mem_singleton.mp hend]
      exact (covers_end source).within
  · obtain ⟨text, hne, ⟨front, behind, -, hspan⟩, -⟩ := halone token hmem hkind
    rw [hspan, Text.byteSize_append]
    exact Nat.lt_add_of_pos_right (Text.byteSize_pos hne)

theorem exists_ok_of_map {ε α β : Type} {result : Except ε α} {f : α → β} {b : β}
    (h : result.toOption.map f = some b) : ∃ a, result = .ok a ∧ f a = b := by
  cases result with
  | error => cases h
  | ok a => exact ⟨a, rfl, Option.some.inj h⟩

/-- Blanks, comments of both sorts, a text in quotes and a comment that is not closed. -/
theorem tokens_tile_sample :
    ∃ found, tokens "a /* b */ => // c\n\t'é\\'' /* d" = .ok found ∧ found.length = 5 ∧
      Tiled "a /* b */ => // c\n\t'é\\'' /* d" found := by
  have hlength :
      (tokens "a /* b */ => // c\n\t'é\\'' /* d").toOption.map List.length = some 5 := by
    decide +kernel
  obtain ⟨found, htokens, hfound⟩ := exists_ok_of_map hlength
  exact ⟨found, htokens, hfound, tokens_tile htokens⟩

end Doctest.Script
