import Doctest.Proofs.Script.Parsing.Programs
import Doctest.Proofs.Script.Places

/-!
# Every text is read

Reading a text comes to an end: it is cut into tokens, and these are taken one after the other up to
the end, or it is at fault between two of its characters. On the way no token is looked at before
the first one or behind the end, no parenthesis is closed that was not opened, and each expression
and each statement takes a token.
-/

namespace Doctest.Script

/-! ### Parentheses ahead -/

/-- Whether an arrow follows the parenthesis that closes the outermost of some open ones; nothing if
a parenthesis is closed while none is open. -/
def arrowAfterGroup? : Nat → List Token → Option Bool
  | _, [] => some false
  | depth, token :: rest =>
    match token.kind with
    | .symbol .lparen => arrowAfterGroup? (depth + 1) rest
    | .symbol .rparen =>
      match depth with
      | 0 => none
      | 1 => some (rest.head?.any (·.kind = .symbol .arrow))
      | depth + 2 => arrowAfterGroup? (depth + 1) rest
    | .eof => some false
    | _ => arrowAfterGroup? depth rest

theorem arrowAfterGroup?_of_pos {depth : Nat} (hdepth : 0 < depth) (tokens : List Token) :
    arrowAfterGroup? depth tokens = some (arrowAfterGroup depth tokens) := by
  induction tokens generalizing depth with
  | nil => rfl
  | cons token rest ih =>
    obtain ⟨kind, span⟩ := token
    cases kind with
    | eof => rfl
    | symbol mark =>
      cases mark with
      | lparen => exact ih (Nat.succ_pos depth)
      | rparen =>
        match depth, hdepth with
        | 1, _ => rfl
        | depth + 2, _ => exact ih (Nat.succ_pos depth)
      | _ => exact ih hdepth
    | _ => exact ih hdepth

/-- From an opening parenthesis on, none is closed while none is open. -/
theorem arrowAfterGroup?_of_lparen {first : Token} (hfirst : first.kind = .symbol .lparen)
    (rest : List Token) :
    arrowAfterGroup? 0 (first :: rest) = some (arrowAfterGroup 0 (first :: rest)) := by
  rw [arrowAfterGroup?, arrowAfterGroup, hfirst]
  exact arrowAfterGroup?_of_pos Nat.one_pos rest

namespace Parser

variable {α : Type}

/-! ### With enough levels -/

/-- With so many levels or more a parser does the same before some tokens, whatever was taken before
them and whatever is behind the end: it takes at least one token but not the end, or it fails at
some of them. -/
inductive Proceeds (x : Nat → Parser α) (tokens : List Token) : Prop
  | takes {taken rest : List Token} {a : α} (htokens : tokens = taken ++ rest) (hne : taken ≠ [])
    (hends : ∀ token ∈ taken, token.kind ≠ .eof) (hrest : Ended rest)
    (hruns : ∀ levels last more, 10 * tokens.length + 9 ≤ levels →
      x levels ⟨last, tokens ++ more⟩ = .ok (a, ⟨lastSpan taken, rest ++ more⟩))
  | fails {fault : Fault} (hcause : fault.cause ≠ .tooDeep) (hspan : Joins tokens fault.span)
    (hruns : ∀ levels last more, 10 * tokens.length + 9 ≤ levels →
      x levels ⟨last, tokens ++ more⟩ = .error fault)

theorem Settles.same {x y : Parser α} {tokens : List Token}
    {result : List Token → List Token → α → Prop} (h : Settles x y [] tokens result)
    (hended : Ended tokens) (last : Span) (more : List Token) :
    x ⟨last, tokens ++ more⟩ = y ⟨last, tokens ++ more⟩ := by
  cases h with
  | @takes taken rest a htokens hends _ hruns =>
    subst htokens
    have hrest := hended.of_append hends
    have hboth := hruns last (rest ++ more) (.of_ended hrest more)
    rw [← List.append_assoc] at hboth
    exact hboth.1.trans hboth.2.symm
  | fails _ _ hruns => exact (hruns last more).1.trans (hruns last more).2.symm

/-- A parser that settles with any two numbers of levels does the same with all of them. -/
theorem Proceeds.of_settles {x : Nat → Parser α} {tokens : List Token}
    {result : List Token → List Token → α → Prop} (hended : Ended tokens)
    (hne : ∀ taken rest a, result taken rest a → taken ≠ [])
    (h : ∀ levels, 10 * tokens.length + 9 ≤ levels →
      Settles (x levels) (x (10 * tokens.length + 9)) [] tokens result) : Proceeds x tokens := by
  have hsame {levels : Nat} (hlevels : 10 * tokens.length + 9 ≤ levels) (last : Span)
      (more : List Token) : x levels ⟨last, tokens ++ more⟩ = _ :=
    (h levels hlevels).same hended last more
  cases h _ le_rfl with
  | @takes taken rest a htokens hends hresult hruns =>
    have hrest : Ended rest := (htokens ▸ hended).of_append hends
    have htaken := hne taken rest a hresult
    refine .takes (a := a) htokens htaken hends hrest fun levels last more hlevels => ?_
    have hbehind : Cursor.behind last taken (rest ++ more) = ⟨lastSpan taken, rest ++ more⟩ := by
      rw [Cursor.behind, lastSpan, List.getLast?_eq_some_getLast htaken]
      rfl
    have hboth := hruns last (rest ++ more) (.of_ended hrest more)
    rw [hsame hlevels, htokens, List.append_assoc, ← hbehind]
    exact htokens ▸ hboth.2
  | fails hcause hspan hruns =>
    refine .fails hcause hspan fun levels last more hlevels => ?_
    rw [hsame hlevels]
    exact (hruns last more).2

/-- From each token on, a statement takes a token, or fails. -/
theorem statement_proceeds (inBody : Bool) {tokens : List Token} (hended : Ended tokens) :
    Proceeds (fun levels => statement levels inBody) tokens := by
  have hdescends := descends separatedBy_anything tokens.length
  refine .of_settles hended ?_ fun levels hlevels =>
    hdescends.statement inBody ⟨hended, le_rfl, hlevels, le_rfl⟩
  intro taken _ stmt hforms
  exact (hforms.leading trivial).ne_nil

/-- From each token on, an expression takes a token, or fails. -/
theorem assignment_proceeds (inBody : Bool) {tokens : List Token} (hended : Ended tokens) :
    Proceeds (fun levels => assignment levels inBody) tokens := by
  have hdescends := descends separatedBy_anything tokens.length
  refine .of_settles hended ?_ fun levels hlevels =>
    hdescends.assignment inBody ⟨hended, le_rfl, hlevels, le_rfl⟩
  intro taken _ e hforms
  exact (hforms.leading trivial).ne_nil

end Parser

/-! ### Whole texts -/

section Whole

variable {source : String} {found own : List Token} {stop : Token}

/-- The last token of a text is its end, and each other one stands for characters that spell it. -/
theorem covers_of_tokens (h : tokens source = .ok (own ++ [stop]))
    (hown : ∀ token ∈ own, token.kind ≠ .eof) (hstop : stop.kind = .eof) :
    stop = ⟨.eof, source.utf8ByteSize, source.utf8ByteSize⟩ ∧
      ∀ token ∈ own, ∃ text, Covers source.toList token.span text ∧ Spelled token.kind text := by
  have hcovers := covers_of_tokensFrom [] rfl h
  rw [List.nil_append, Text.byteSize_toList] at hcovers
  constructor
  · rcases hcovers stop (by simp) with ⟨text, -, hspelled⟩ | hend
    · exact absurd hstop hspelled.ne_eof
    · exact hend
  · intro token hmem
    rcases hcovers token (by simp [hmem]) with hplaced | hend
    · exact hplaced
    · exact absurd (congrArg Token.kind hend) (hown token hmem)

/-- The spans of a tree and of what is wrong with the tokens of a text lie within the text. -/
theorem within_of_joins (h : tokens source = .ok found) {span : Span} (hspan : Joins found span) :
    span.Within source := by
  obtain ⟨own, stop, rfl, hown, hstop⟩ := exists_stop h
  obtain ⟨hend, hplaced⟩ := covers_of_tokens h hown hstop
  induction hspan with
  | @token token hmem =>
    rcases List.mem_append.mp hmem with hin | hin
    · obtain ⟨text, hcovers, -⟩ := hplaced token hin
      exact hcovers.within
    · rw [List.mem_singleton.mp hin, hend]
      exact (covers_end source).within
  | join _ _ iha ihb => exact iha.join ihb

/-- How a text is read, with the tokens it is cut into. -/
inductive ReadsAll (source : String) (found : List Token) : Prop
  /-- All tokens but the end are taken. -/
  | takes {program : List Stmt} {own : List Token} {stop : Token} (hfound : found = own ++ [stop])
    (hparse : parse source = .ok program)
    (hruns : ∀ fuel levels last more, found.length ≤ fuel → 10 * found.length + 9 ≤ levels →
      programStatements fuel levels ⟨last, found ++ more⟩ =
        .ok (program, .behind last own (stop :: more)))
  /-- The parser fails at some of the tokens. -/
  | fails {fault : Fault} (hcause : fault.cause ≠ .tooDeep) (hwithin : fault.span.Within source)
    (hparse : parse source = .error fault)
    (hruns : ∀ fuel levels last more, found.length ≤ fuel → 10 * found.length + 9 ≤ levels →
      programStatements fuel levels ⟨last, found ++ more⟩ = .error fault)

/-- What the parser does with the tokens of a text is how the text is read. -/
theorem parse_of_tokens (h : tokens source = .ok found) :
    parse source = (programStatements (found.length + 1) (10 * found.length + 10)
      ⟨⟨0, 0⟩, found⟩).map Prod.fst := by
  rw [parse, h]
  change programOf found = _
  rw [programOf, StateT.run'_eq, StateT.run]
  rfl

theorem reads_of_tokens (h : tokens source = .ok found) : ReadsAll source found := by
  have hended := ended_of_tokens h
  have hsettles {fuel levels : Nat} (hfuel : found.length ≤ fuel)
      (hlevels : 10 * found.length + 9 ≤ levels) :=
    Parser.settles_of_tokens Parser.separatedBy_anything h hfuel (Nat.le_succ _) hlevels
      (Nat.le_succ _)
  have hsame {fuel levels : Nat} (hfuel : found.length ≤ fuel)
      (hlevels : 10 * found.length + 9 ≤ levels) (last : Span) (more : List Token) :=
    (hsettles hfuel hlevels).same hended last more
  cases hsettles (Nat.le_succ _) (Nat.le_succ _) with
  | @takes own rest program hfound hends hresult hruns =>
    obtain ⟨-, stop, rfl, hstop⟩ := hresult
    have htakes (last : Span) (more : List Token) :
        programStatements (found.length + 1) (10 * found.length + 10) ⟨last, found ++ more⟩ =
          .ok (program, .behind last own (stop :: more)) := by
      have halike : Alike [stop] (stop :: more) := .of_ended ⟨stop, by simp, hstop⟩ more
      have hboth := hruns last (stop :: more) halike
      rw [hfound, List.append_assoc]
      exact hfound ▸ hboth.2
    refine .takes hfound (?_ : parse source = .ok program) ?_
    · have hparse := htakes ⟨0, 0⟩ []
      rw [List.append_nil] at hparse
      rw [parse_of_tokens h, hparse]
      rfl
    · intro fuel levels last more hfuel hlevels
      exact (hsame hfuel hlevels last more).trans (htakes last more)
  | @fails fault hcause hspan hruns =>
    refine .fails hcause (within_of_joins h hspan) ?_ fun fuel levels last more hfuel hlevels => ?_
    · have hparse := (hruns ⟨0, 0⟩ []).2
      rw [List.append_nil] at hparse
      rw [parse_of_tokens h]
      exact hparse ▸ rfl
    · exact (hsame hfuel hlevels last more).trans (hruns last more).2

/-- Reading a text comes to its end, and everything is in bounds on the way. -/
structure ReadsSafely (source : String) : Prop where
  /-- A text that cannot be cut into tokens is at fault between two of its characters. -/
  unscanned : ∀ fault, tokens source = .error fault →
    parse source = .error fault ∧ fault.cause ≠ .tooDeep ∧ fault.span.Within source
  /-- The end comes last, and each other token stands for characters that spell it. -/
  scanned : ∀ found, tokens source = .ok found → ∃ own stop, found = own ++ [stop] ∧
    stop = ⟨.eof, source.utf8ByteSize, source.utf8ByteSize⟩ ∧
    ∀ token ∈ own, token.kind ≠ .eof ∧
      ∃ text, Covers source.toList token.span text ∧ Spelled token.kind text
  /-- From each token on, a statement and an expression take a token but not the end, or fail. -/
  pieces : ∀ found, tokens source = .ok found → ∀ ahead, ahead <:+ found → ahead ≠ [] →
    ∀ inBody, Parser.Proceeds (statement · inBody) ahead ∧
      Parser.Proceeds (assignment · inBody) ahead
  /-- Where the parser looks for the end of a group, it closes only what is open. -/
  groups : ∀ found, tokens source = .ok found → ∀ first rest, first :: rest <:+ found →
    first.kind = .symbol .lparen →
    arrowAfterGroup? 0 (first :: rest) = some (arrowAfterGroup 0 (first :: rest))
  /-- All tokens but the end are taken, or the parser fails at some of them. -/
  whole : ∀ found, tokens source = .ok found → ReadsAll source found

/-- **Parsing is total.** -/
theorem parsing_total (source : String) : ReadsSafely source where
  unscanned fault h := by
    obtain ⟨hcause, text, hcovers⟩ := covers_of_tokensFrom_error [] rfl h
    refine ⟨?_, hcause, hcovers.within⟩
    rw [parse, h]
    rfl
  scanned found h := by
    obtain ⟨own, stop, rfl, hown, hstop⟩ := exists_stop h
    obtain ⟨hend, hplaced⟩ := covers_of_tokens h hown hstop
    exact ⟨own, stop, rfl, hend, fun token hmem => ⟨hown token hmem, hplaced token hmem⟩⟩
  pieces found h ahead hsuffix hne inBody := by
    obtain ⟨own, stop, rfl, hown, hstop⟩ := exists_stop h
    have hlast : stop ∈ ahead := by
      have hgetLast := hsuffix.getLast hne
      rw [List.getLast_concat] at hgetLast
      exact hgetLast ▸ List.getLast_mem hne
    have hended : Ended ahead := ⟨stop, hlast, hstop⟩
    exact ⟨Parser.statement_proceeds inBody hended, Parser.assignment_proceeds inBody hended⟩
  groups _ _ _ rest _ hfirst := arrowAfterGroup?_of_lparen hfirst rest
  whole _ h := reads_of_tokens h

end Whole

end Doctest.Script
