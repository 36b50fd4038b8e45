import Doctest.Proofs.Script.Parsing.Joining
import Doctest.Proofs.Script.Parsing.Precedence
import Doctest.Proofs.Script.Parsing.Programs

/-!
# How objects are read

Calls, properties, operators and arrow functions are no objects. So an expression that is one is an
operand with line breaks behind it: an object between braces, or an object between parentheses. What
stands between two brackets is read whatever stands behind them, so that the object in a text that
is one in parentheses can be read without these.
-/

namespace Doctest.Script

/-! ### Line breaks between cursors -/

/-- Only line breaks stand between two cursors. -/
def Cursor.FeedsTo (c c' : Cursor) : Prop :=
  ∃ gap, Feeds gap ∧ c.rest = gap ++ c'.rest

namespace Cursor.FeedsTo

variable {c c' c'' : Cursor}

theorem refl (c : Cursor) : c.FeedsTo c :=
  ⟨[], .nil, rfl⟩

theorem pastNewlines (c : Cursor) : c.FeedsTo c.pastNewlines := by
  refine ⟨c.rest.takeWhile (·.kind = .newline), fun token hmem => ?_, ?_⟩
  · simpa using List.mem_takeWhile_imp hmem
  · exact (List.takeWhile_append_dropWhile ..).symm

theorem trans (h : c.FeedsTo c') (h' : c'.FeedsTo c'') : c.FeedsTo c'' := by
  obtain ⟨gap, hgap, hc⟩ := h
  obtain ⟨gap', hgap', hc'⟩ := h'
  refine ⟨gap ++ gap', ?_, by rw [hc, hc', List.append_assoc]⟩
  intro token hmem
  exact (List.mem_append.mp hmem).elim (hgap token) (hgap' token)

end Cursor.FeedsTo

namespace Parser

variable {props : List (String × Expr)} {span : Span} {c c' : Cursor} {levels : Nat}
  {inBody : Bool}

/-! ### Objects that are read with less levels -/

/-- A call or a property of something is no object. -/
theorem suffixes_object {operand : Expr}
    (h : suffixes levels inBody operand c = .ok (.object props span, c')) :
    operand = .object props span ∧ c.FeedsTo c' := by
  induction levels generalizing operand c with
  | zero => cases h
  | succ levels ih =>
    rw [suffixes, bind_kind_apply] at h
    generalize c.kindAt 0 = k at h
    split at h
    · obtain ⟨args, _, -, h⟩ := exists_of_bind h
      obtain ⟨_, _, -, h⟩ := exists_of_bind h
      cases (ih h).1
    · obtain ⟨_, _, -, h⟩ := exists_of_bind h
      obtain ⟨name, _, -, h⟩ := exists_of_bind h
      obtain ⟨_, _, -, h⟩ := exists_of_bind h
      cases (ih h).1
    · obtain ⟨_, _, -, h⟩ := exists_of_bind h
      obtain ⟨_, _, -, h⟩ := exists_of_bind h
      obtain ⟨key, _, -, h⟩ := exists_of_bind h
      obtain ⟨_, _, -, h⟩ := exists_of_bind h
      obtain ⟨_, _, -, h⟩ := exists_of_bind h
      obtain ⟨_, _, -, h⟩ := exists_of_bind h
      cases (ih h).1
    · rw [bind_get_apply] at h
      split at h
      · rw [bind_skipNewlines_apply] at h
        obtain ⟨heq, hfeeds⟩ := ih h
        exact ⟨heq, (Cursor.FeedsTo.pastNewlines c).trans hfeeds⟩
      · cases h
        exact ⟨rfl, .refl _⟩
    · cases h
      exact ⟨rfl, .refl _⟩

/-- What an operator makes of its operands is no object. -/
theorem binaryRest_object {least : Nat} {left : Expr}
    (h : binaryRest levels inBody least left c = .ok (.object props span, c')) :
    left = .object props span ∧ c.FeedsTo c' := by
  induction levels generalizing left c with
  | zero => cases h
  | succ levels ih =>
    have hnext {c : Cursor} (h : (Parser.kind >>= fun kind =>
        afterOperand levels inBody least left kind.infix?) c = .ok (.object props span, c')) :
        left = .object props span ∧ c.FeedsTo c' := by
      rw [bind_kind_apply] at h
      cases hop : (c.kindAt 0).infix? with
      | none =>
        rw [hop] at h
        cases h
        exact ⟨rfl, .refl _⟩
      | some op =>
        rw [hop, afterOperand] at h
        split at h
        · cases h
          exact ⟨rfl, .refl _⟩
        · obtain ⟨_, _, -, h⟩ := exists_of_bind h
          obtain ⟨_, _, -, h⟩ := exists_of_bind h
          obtain ⟨right, _, -, h⟩ := exists_of_bind h
          have heq := (ih h).1
          rw [Infix.build_eq_node] at heq
          generalize op.op = made at heq
          cases made <;> cases heq
    rw [binaryRest, bind_get_apply] at h
    split at h
    · rw [bind_skipNewlines_apply] at h
      obtain ⟨heq, hfeeds⟩ := hnext h
      exact ⟨heq, (Cursor.FeedsTo.pastNewlines c).trans hfeeds⟩
    · exact hnext h

/-- An arrow function is no object. -/
theorem arrow_ne_object : arrow levels inBody c ≠ .ok (.object props span, c') := by
  intro h
  cases levels with
  | zero => cases h
  | succ levels =>
    have hgives : (arrow (levels + 1) inBody).Gives fun e => ∃ params body span,
        e = .arrow params body span := by
      rw [arrow]
      refine .seq fun _ => ?_
      dsimp only
      refine .seq fun grouped => ?_
      split
      · refine .seq fun _ => .seq fun _ => .seq fun _ => .seq fun _ => .seq fun _ => ?_
        refine .seq fun _ => .seq fun braced => ?_
        split
        · exact .seq fun _ => .seq fun _ => .pure ⟨_, _, _, rfl⟩
        · exact .seq fun _ => .seq fun _ => .pure ⟨_, _, _, rfl⟩
      · refine .seq fun _ => .seq fun _ => .seq fun _ => .seq fun _ => .seq fun braced => ?_
        split
        · exact .seq fun _ => .seq fun _ => .pure ⟨_, _, _, rfl⟩
        · exact .seq fun _ => .seq fun _ => .pure ⟨_, _, _, rfl⟩
    obtain ⟨params, body, span, heq⟩ := hgives _ _ _ h
    cases heq

theorem construction_ne_object :
    construction levels inBody c ≠ .ok (.object props span, c') := by
  intro h
  cases levels with
  | zero => cases h
  | succ levels =>
    have hgives : (construction (levels + 1) inBody).Gives fun e => ∃ callee args span,
        e = .construct callee args span := by
      rw [construction]
      refine .seq fun _ => .seq fun _ => .seq fun _ => .seq fun called => ?_
      split
      · exact .seq fun _ => .seq fun _ => .pure ⟨_, _, _, rfl⟩
      · exact .seq fun _ => .pure ⟨_, _, _, rfl⟩
    obtain ⟨callee, args, span, heq⟩ := hgives _ _ _ h
    cases heq

/-- A conditional expression that is an object is an operand with line breaks behind it. -/
theorem primary_of_conditional
    (h : conditional levels inBody c = .ok (.object props span, c')) :
    ∃ m c'', levels = m + 3 ∧ (c.kindAt 0).unary? = none ∧
      primary m inBody c = .ok (.object props span, c'') ∧ c''.FeedsTo c' := by
  obtain _ | levels := levels
  · cases h
  rw [conditional] at h
  obtain ⟨test, middle, hbinary, h⟩ := exists_of_bind h
  rw [accept_eq, bind_sees_apply] at h
  split at h
  · obtain ⟨_, _, -, h⟩ := exists_of_bind h
    obtain ⟨_, _, -, h⟩ := exists_of_bind h
    obtain ⟨_, _, -, h⟩ := exists_of_bind h
    obtain ⟨_, _, -, h⟩ := exists_of_bind h
    obtain ⟨_, _, -, h⟩ := exists_of_bind h
    obtain ⟨_, _, -, h⟩ := exists_of_bind h
    obtain ⟨_, _, -, h⟩ := exists_of_bind h
    cases h
  cases h
  obtain _ | levels := levels
  · cases hbinary
  rw [binary] at hbinary
  obtain ⟨left, behind, hunary, hrest⟩ := exists_of_bind hbinary
  obtain ⟨rfl, hfeeds⟩ := binaryRest_object hrest
  obtain _ | levels := levels
  · cases hunary
  rw [unary, bind_get_apply, bind_kind_apply] at hunary
  cases hop : (c.kindAt 0).unary? with
  | some op =>
    rw [hop] at hunary
    obtain ⟨_, _, -, hunary⟩ := exists_of_bind hunary
    obtain ⟨_, _, -, hunary⟩ := exists_of_bind hunary
    cases hunary
  | none =>
    rw [hop] at hunary
    obtain ⟨operand, c'', hprimary, hsuffixes⟩ := exists_of_bind hunary
    obtain ⟨rfl, hfeeds'⟩ := suffixes_object hsuffixes
    exact ⟨levels, c'', rfl, rfl, hprimary, hfeeds'.trans hfeeds⟩

/-- An expression that is an object is an operand with line breaks behind it. -/
theorem primary_of_assignment
    (h : assignment levels inBody c = .ok (.object props span, c')) :
    ∃ m c'', levels = m + 4 ∧ (c.kindAt 0).unary? = none ∧
      primary m inBody c = .ok (.object props span, c'') ∧ c''.FeedsTo c' := by
  obtain _ | levels := levels
  · cases h
  rw [assignment, bind_get_apply] at h
  split at h
  · exact absurd h arrow_ne_object
  obtain ⟨target, middle, hconditional, h⟩ := exists_of_bind h
  rw [bind_kind_apply] at h
  generalize (middle.kindAt 0).assignment? = op at h
  cases op with
  | none =>
    cases h
    obtain ⟨m, c'', rfl, hunary, hprimary, hfeeds⟩ := primary_of_conditional hconditional
    exact ⟨m, c'', rfl, hunary, hprimary, hfeeds⟩
  | some op =>
    dsimp only at h
    split at h
    · cases h
    · obtain ⟨_, _, -, h⟩ := exists_of_bind h
      obtain ⟨_, _, -, h⟩ := exists_of_bind h
      obtain ⟨_, _, -, h⟩ := exists_of_bind h
      cases h

/-- An operand is an expression if a token that ends one follows, with or without line breaks. -/
theorem assignment_of_primary {m : Nat} {e : Expr} {gap rest : List TokenKind} {k : TokenKind}
    (h : primary m inBody c = .ok (e, c')) (harrow : c.startsArrow = false)
    (hunary : (c.kindAt 0).unary? = none) (hgap : ∀ kind ∈ gap, kind = .newline)
    (hk : k.ends = true) (hc' : c'.kinds = gap ++ k :: rest) :
    assignment (m + 4) inBody c = .ok (e, c') := by
  have hending := TokenKind.ending hk
  obtain _ | m := m
  · cases h
  have hsuffixes : suffixes (m + 1) inBody e c' = .ok (e, c') :=
    suffixes_quits e ⟨gap, k, rest, rfl, hgap, hending.suffix⟩ hc'
  have hpast : c'.kindPastNewlines = k := by
    rw [Cursor.kindPastNewlines_eq]
    exact Cursor.kindAt_zero_of_kinds (kinds_past_gap hgap hending.newline hc')
  -- Neither a line break nor the token behind it goes on with the expression.
  have hnext : (c'.kindAt 0).infix? = none ∧ c'.kindAt 0 ≠ .symbol .question ∧
      (c'.kindAt 0).assignment? = none := by
    cases gap with
    | nil =>
      rw [Cursor.kindAt_zero_of_kinds hc']
      exact ⟨hending.operator, hending.question, hending.assignment⟩
    | cons first gap =>
      rw [Cursor.kindAt_zero_of_kinds hc', hgap first List.mem_cons_self]
      exact ⟨rfl, nofun, rfl⟩
  have hunaryRun : unary (m + 2) inBody c = .ok (e, c') := by
    rw [unary, bind_get_apply, bind_kind_apply, hunary]
    dsimp only
    rw [bind_of_ok h]
    exact hsuffixes
  have hrest : binaryRest (m + 2) inBody 0 e c' = .ok (e, c') := by
    have hstops : c'.continues = false := by
      rw [Cursor.continues, hpast]
      simp [hending.question, hending.operator]
    rw [binaryRest, bind_get_apply, hstops, if_neg Bool.false_ne_true]
    dsimp only
    rw [bind_kind_apply, hnext.1]
    rfl
  have hconditional : conditional (m + 4) inBody c = .ok (e, c') := by
    have hbinary : binary (m + 3) inBody 0 c = .ok (e, c') := by
      rw [binary, bind_of_ok hunaryRun, hrest]
    rw [conditional, bind_of_ok hbinary, accept_eq, bind_sees_apply, if_neg hnext.2.1]
    rfl
  rw [assignment, bind_get_apply, harrow, if_neg Bool.false_ne_true, bind_of_ok hconditional,
    bind_kind_apply, hnext.2.2]
  rfl

/-! ### Brackets -/

/-- What stands between brackets, of which the first one comes next. -/
def bracketed {α : Type} (right : Symbol) (inside : Parser α) (make : α → Span → Expr) :
    Parser Expr := do
  modify Cursor.advance
  let a ← inside
  let stop ← Parser.expect right
  return make a stop

theorem advance_cons {token : Token} (htoken : token.kind ≠ .eof) (last : Span)
    (more : List Token) : (Cursor.mk last (token :: more)).advance = ⟨token.span, more⟩ :=
  if_neg htoken

theorem bind_expect_cons {β : Type} {mark : Symbol} {f : Span → Parser β} {close : Token}
    (hclose : close.kind = .symbol mark) (last : Span) (more : List Token) :
    (Parser.expect mark >>= f) ⟨last, close :: more⟩ = f close.span ⟨close.span, more⟩ := by
  have hkind : (Cursor.mk last (close :: more)).kindAt 0 = .symbol mark := hclose
  rw [expect_eq, bind_sees_apply, if_pos hkind]
  change f close.span (Cursor.mk last (close :: more)).advance = _
  rw [advance_cons (by simp [hclose])]

theorem exists_of_bind_expect {β : Type} {mark : Symbol} {f : Span → Parser β} {b : β}
    (h : (Parser.expect mark >>= f) c = .ok (b, c')) :
    ∃ close more, c.rest = close :: more ∧ close.kind = .symbol mark ∧
      f close.span ⟨close.span, more⟩ = .ok (b, c') := by
  obtain ⟨last, rest⟩ := c
  have hkind : (Cursor.mk last rest).kindAt 0 = .symbol mark := by
    by_contra hne
    rw [expect_eq, bind_sees_apply, if_neg hne] at h
    cases h
  obtain _ | ⟨close, more⟩ := rest
  · cases hkind
  · rw [bind_expect_cons hkind] at h
    exact ⟨close, more, rfl, hkind, h⟩

/-- What stands between brackets is read whatever stands behind them. -/
theorem bracketed_anywhere {α : Type} {right : Symbol} {inside : Parser α}
    {make : α → Span → Expr} {token : Token} {more : List Token} {last : Span} {e : Expr}
    (htoken : token.kind ≠ .eof)
    (hinside : Settles inside inside [] more fun _ _ _ => True)
    (h : bracketed right inside make ⟨last, token :: more⟩ = .ok (e, c')) :
    ∃ own, more = own ++ c'.rest ∧ ∀ last others, ∃ c'',
      bracketed right inside make ⟨last, token :: (own ++ others)⟩ = .ok (e, c'') ∧
        c''.rest = others := by
  rw [bracketed, bind_advance_apply, advance_cons htoken] at h
  obtain ⟨a, middle, hrun, h⟩ := exists_of_bind h
  obtain ⟨close, rest, hmiddle, hclose, h⟩ := exists_of_bind_expect h
  cases h
  cases hinside with
  | fails _ _ hruns =>
    have hfails := (hruns token.span []).1
    rw [List.append_nil] at hfails
    cases hrun.symm.trans hfails
  | @takes taken behind found htokens _ _ hruns =>
    subst htokens
    have htakes := (hruns token.span behind (.refl _)).1
    cases hrun.symm.trans htakes
    obtain rfl : behind = close :: rest := hmiddle
    refine ⟨taken ++ [close], by simp, fun last others => ?_⟩
    have halike : Alike (close :: rest) (close :: others) := by
      refine ⟨rfl, ?_⟩
      simp [pastFeeds, hclose]
    have hagain := (hruns token.span (close :: others) halike).1
    refine ⟨⟨close.span, others⟩, ?_, rfl⟩
    rw [bracketed, List.append_assoc, List.singleton_append, bind_advance_apply,
      advance_cons htoken]
    exact (bind_of_ok hagain).trans (bind_expect_cons hclose _ _)

/-- An object begins with a brace, or with a parenthesis before it. -/
theorem primary_eq_bracketed {token : Token} {more : List Token} {last : Span}
    (h : primary (levels + 1) inBody ⟨last, token :: more⟩ = .ok (.object props span, c')) :
    (token.kind = .symbol .lparen ∧ ∀ last more,
      primary (levels + 1) inBody ⟨last, token :: more⟩ =
        bracketed .rparen (do
          Parser.skipNewlines
          let inner ← assignment levels inBody
          Parser.skipNewlines
          return inner) (fun inner _ => inner) ⟨last, token :: more⟩) ∨
    (token.kind = .symbol .lbrace ∧ ∀ last more,
      primary (levels + 1) inBody ⟨last, token :: more⟩ =
        bracketed .rbrace (do
          Parser.skipNewlines
          properties levels inBody) (fun members stop => .object members (token.span.join stop))
          ⟨last, token :: more⟩) := by
  have hcurrent (last : Span) (more : List Token) :
      (Cursor.mk last (token :: more)).current = token :=
    rfl
  rw [primary, bind_get_apply, hcurrent] at h
  generalize hkind : token.kind = kind at h
  split at h
  iterate 6
    · cases h
  · refine .inl ⟨rfl, fun last more => ?_⟩
    rw [primary, bind_get_apply, hcurrent, hkind]
    simp only [bracketed, bind_assoc, pure_bind]
  · obtain ⟨_, _, -, h⟩ := exists_of_bind h
    obtain ⟨_, _, -, h⟩ := exists_of_bind h
    obtain ⟨items, _, -, h⟩ := exists_of_bind h
    obtain ⟨stop, _, -, h⟩ := exists_of_bind h
    cases h
  · refine .inr ⟨rfl, fun last more => ?_⟩
    rw [primary, bind_get_apply, hcurrent, hkind]
    simp only [bracketed, bind_assoc]
  · exact absurd h construction_ne_object
  · cases h

/-- An object is read whatever stands behind it. -/
theorem primary_anywhere {tokens : List Token} {last : Span} (hended : Ended tokens)
    (hlevels : 10 * tokens.length + 9 ≤ levels)
    (h : primary levels inBody ⟨last, tokens⟩ = .ok (.object props span, c')) :
    ∃ own, tokens = own ++ c'.rest ∧ Forms Anything own (.expr (.object props span)) ∧
      ∀ last others, ∃ c'', primary levels inBody ⟨last, own ++ others⟩ =
        .ok (.object props span, c'') ∧ c''.rest = others := by
  obtain _ | levels := levels
  · cases h
  obtain ⟨token, more, rfl⟩ := hended.exists_cons
  have hdescends := descends separatedBy_anything (token :: more).length
  have hroom {gap rest : List Token} (hmore : more = gap ++ rest) (hrest : Ended rest) :
      Room 9 (token :: more).length rest levels levels := by
    have hlength := congrArg List.length hmore
    rw [List.length_append] at hlength
    rw [List.length_cons] at hlevels ⊢
    exact ⟨hrest, by omega, by omega, by omega⟩
  have hclosed : ∃ own, more = own ++ c'.rest ∧ ∀ last others, ∃ c'',
      primary (levels + 1) inBody ⟨last, token :: (own ++ others)⟩ =
        .ok (.object props span, c'') ∧ c''.rest = others := by
    rcases primary_eq_bracketed h with ⟨hopen, hsame⟩ | ⟨hopen, hsame⟩
    · have htoken : token.kind ≠ .eof := by simp [hopen]
      simp only [hsame] at h ⊢
      refine bracketed_anywhere htoken ?_ h
      refine .skipNewlines (hended.tail htoken) fun gap rest hmore _ _ hrest => ?_
      refine .bind hrest (hdescends.assignment inBody (hroom hmore hrest)) ?_
      rintro taken behind inner rfl hbehind -
      exact .skipNewlines hbehind fun _ _ _ _ _ _ => .pure trivial
    · have htoken : token.kind ≠ .eof := by simp [hopen]
      simp only [hsame] at h ⊢
      refine bracketed_anywhere htoken ?_ h
      refine .skipNewlines (hended.tail htoken) fun gap rest hmore _ _ hrest => ?_
      exact .rest (hdescends.properties inBody (hroom hmore hrest)) fun _ _ _ _ _ => trivial
  obtain ⟨own, hmore, hanywhere⟩ := hclosed
  have htokens : token :: more = token :: own ++ c'.rest := congrArg (token :: ·) hmore
  refine ⟨token :: own, htokens, ?_, hanywhere⟩
  cases hdescends.primary inBody ⟨hended, le_rfl, hlevels, hlevels⟩ with
  | fails _ _ hruns =>
    have hfails := (hruns last []).1
    rw [List.append_nil] at hfails
    cases h.symm.trans hfails
  | @takes taken behind found htaken _ hforms hruns =>
    rw [htaken] at h
    cases h.symm.trans (hruns last behind (.refl _)).1
    obtain rfl : token :: own = taken := List.append_cancel_right (htokens.symm.trans htaken)
    exact hforms

/-- A group is read by what is in it. -/
theorem exists_of_group {token : Token} {more : List Token} {last : Span}
    (htoken : token.kind = .symbol .lparen)
    (h : primary levels inBody ⟨last, token :: more⟩ = .ok (.object props span, c')) :
    ∃ m middle close, levels = m + 1 ∧
      assignment m inBody (Cursor.mk token.span more).pastNewlines =
        .ok (.object props span, middle) ∧
      close.kind = .symbol .rparen ∧ middle.pastNewlines.rest = close :: c'.rest := by
  obtain _ | levels := levels
  · cases h
  rcases primary_eq_bracketed h with ⟨-, hsame⟩ | ⟨hopen, -⟩
  · rw [hsame, bracketed, bind_advance_apply, advance_cons (by simp [htoken])] at h
    simp only [bind_assoc, pure_bind] at h
    rw [bind_skipNewlines_apply] at h
    obtain ⟨inner, middle, hinner, h⟩ := exists_of_bind h
    rw [bind_skipNewlines_apply] at h
    obtain ⟨close, rest, hmiddle, hclose, h⟩ := exists_of_bind_expect h
    cases h
    exact ⟨levels, middle, close, rfl, hinner, hclose, hmiddle⟩
  · cases htoken.symm.trans hopen

/-! ### Statements -/

/-- A statement that begins with a parenthesis, or with a brace that opens an object, is an
expression. -/
theorem statement_eq_expressionStatement (h : c.kindAt 0 = .symbol .lparen ∨
      c.kindAt 0 = .symbol .lbrace ∧ c.startsObject = true) :
    statement (levels + 1) inBody c = expressionStatement levels inBody c := by
  rw [statement, bind_get_apply, bind_kind_apply]
  rcases h with hopen | ⟨hopen, hobject⟩
  · rw [hopen]
  · rw [hopen]
    dsimp only
    rw [bind_get_apply, hobject, if_pos rfl]

theorem separator_pastSeparators {u : Unit} (h : Parser.separator c = .ok (u, c')) :
    c'.pastSeparators.kinds = c.pastSeparators.kinds := by
  rw [Parser.separator, bind_kind_apply] at h
  generalize hkind : c.kindAt 0 = kind at h
  split at h
  · cases h
    exact pastSeparators_advance hkind rfl
  · cases h
    exact pastSeparators_advance hkind rfl
  · cases h
    rfl
  · cases h
    rfl
  · cases h

/-- The first statement of a program, and the statements behind it. -/
theorem exists_of_programStatements {fuel : Nat} {stmts : List Stmt}
    (h : programStatements (fuel + 1) levels c = .ok (stmts, c'))
    (hne : c.pastSeparators.kindAt 0 ≠ .eof) :
    ∃ stmt rest behind middle, statement levels false c.pastSeparators = .ok (stmt, behind) ∧
      middle.pastSeparators.kinds = behind.pastSeparators.kinds ∧
      programStatements fuel levels middle = .ok (rest, c') ∧ stmts = stmt :: rest := by
  rw [programStatements_of_ne_eof hne] at h
  obtain ⟨stmt, behind, hstmt, h⟩ := exists_of_bind h
  dsimp only at h
  split at h
  · obtain ⟨_, middle, hseparator, h⟩ := exists_of_bind h
    obtain ⟨rest, _, hrest, hpure⟩ := exists_of_bind h
    cases hpure
    exact ⟨stmt, rest, behind, middle, hstmt, separator_pastSeparators hseparator, hrest, rfl⟩
  · obtain ⟨rest, _, hrest, hpure⟩ := exists_of_bind h
    cases hpure
    exact ⟨stmt, rest, behind, behind, hstmt, rfl, hrest, rfl⟩

/-- A program of one statement is that statement and separators up to the end. -/
theorem exists_of_single {fuel : Nat} {stmt : Stmt}
    (h : programStatements fuel levels c = .ok ([stmt], c')) :
    ∃ behind, statement levels false c.pastSeparators = .ok (stmt, behind) ∧
      behind.pastSeparators.kindAt 0 = .eof := by
  obtain _ | fuel := fuel
  · cases h
  have hne : c.pastSeparators.kindAt 0 ≠ .eof := by
    intro heof
    rw [programStatements_of_eof heof] at h
    cases h
  obtain ⟨first, rest, behind, middle, hstmt, hkinds, hrest, heq⟩ :=
    exists_of_programStatements h hne
  cases heq
  refine ⟨behind, hstmt, ?_⟩
  rw [Cursor.kindAt_eq, ← hkinds, ← Cursor.kindAt_eq]
  obtain _ | fuel := fuel
  · cases hrest
  by_contra hmore
  obtain ⟨_, _, _, _, -, -, -, heq⟩ := exists_of_programStatements hrest hmore
  cases heq

/-- An expression by itself in front of a program is its statement. -/
theorem exists_of_expressionStatement {stmt : Stmt}
    (h : expressionStatement levels inBody c = .ok (stmt, c')) :
    ∃ m e, levels = m + 1 ∧ stmt = .expr e e.span ∧ assignment m inBody c = .ok (e, c') := by
  obtain _ | levels := levels
  · cases h
  rw [expressionStatement] at h
  obtain ⟨e, _, hrun, hpure⟩ := exists_of_bind h
  cases hpure
  exact ⟨levels, e, rfl, rfl, hrun⟩

/-- Behind the tokens of a group only its closing parenthesis and the end are left where only
separators are. -/
theorem eq_stop_of_separators {inside front rest : List Token} {close close' stop : Token}
    (hinside : ∀ token ∈ inside, token.kind ≠ .eof) (hclose : close.kind = .symbol .rparen)
    (hclose' : close'.kind = .symbol .rparen) (hstop : stop.kind = .eof)
    (hsplit : inside ++ [close, stop] = front ++ close' :: rest)
    (hrest : ∀ token ∈ (rest.dropWhile (·.kind.separates)).head?, token.kind = .eof) :
    rest = [stop] ∧ front = inside := by
  have hends : inside ++ [close] ++ [stop] = front ++ close' :: rest := by
    rw [← hsplit, List.append_assoc]
    rfl
  rcases List.eq_nil_or_concat' rest with rfl | ⟨rest, last, rfl⟩
  · have hlast := (List.append_inj' hends rfl).2
    cases hlast
    cases hstop.symm.trans hclose'
  rw [← List.cons_append, ← List.append_assoc] at hends
  obtain ⟨hgroup, hlast⟩ := List.append_inj' hends rfl
  cases hlast
  rcases List.eq_nil_or_concat' rest with rfl | ⟨rest, last, rfl⟩
  · exact ⟨rfl, (List.append_inj' hgroup rfl).1.symm⟩
  rw [← List.cons_append, ← List.append_assoc] at hgroup
  obtain ⟨hwithin, hlast⟩ := List.append_inj' hgroup rfl
  cases hlast
  subst hwithin
  -- Of the tokens left the first one that is no separator stands before the end.
  rw [List.append_assoc, List.dropWhile_append] at hrest
  cases hbehind : rest.dropWhile (·.kind.separates) with
  | nil =>
    rw [hbehind] at hrest
    have hseparates : close.kind.separates = false := by
      rw [hclose]
      rfl
    have heof := hrest close (by simp [hseparates])
    cases hclose.symm.trans heof
  | cons token more =>
    rw [hbehind] at hrest
    have hmem : token ∈ rest :=
      List.dropWhile_subset _ (hbehind ▸ List.mem_cons_self)
    have heof := hrest token (by simp)
    exact absurd heof (hinside token (by simp [hmem]))

/-- **An object in parentheses.** The tokens in them are an object with line breaks around it, and
it is read whatever stands behind it. -/
theorem exists_of_group_program {fuel : Nat} {first close stop : Token} {inside : List Token}
    {last : Span} {span' : Span} (hfirst : first.kind = .symbol .lparen)
    (hinside : ∀ token ∈ inside, token.kind ≠ .eof) (hclose : close.kind = .symbol .rparen)
    (hstop : stop.kind = .eof) (hlevels : 10 * inside.length + 40 ≤ levels)
    (h : programStatements fuel levels ⟨last, first :: (inside ++ [close, stop])⟩ =
      .ok ([.expr (.object props span) span'], c')) :
    ∃ m gap own gap', inside = gap ++ (own ++ gap') ∧ Feeds gap ∧ Feeds gap' ∧
      Forms Anything own (.expr (.object props span)) ∧
      ∀ last others, ∃ c'', primary m false ⟨last, own ++ others⟩ =
        .ok (.object props span, c'') ∧ c''.rest = others := by
  have hseparates : first.kind.separates = false := by
    rw [hfirst]
    rfl
  obtain ⟨behind, hstmt, hbehind⟩ := exists_of_single h
  have hstart : (Cursor.mk last (first :: (inside ++ [close, stop]))).pastSeparators =
      ⟨last, first :: (inside ++ [close, stop])⟩ := by
    simp [Cursor.pastSeparators, Cursor.skipWhile, hseparates]
  rw [hstart] at hstmt
  -- The statement is an operand in parentheses, and what is in them is one too.
  obtain _ | levels := levels
  · cases hstmt
  have hopen : (Cursor.mk last (first :: (inside ++ [close, stop]))).kindAt 0 =
      .symbol .lparen :=
    hfirst
  rw [statement_eq_expressionStatement (.inl hopen)] at hstmt
  obtain ⟨levels, e, rfl, heq, hrun⟩ := exists_of_expressionStatement hstmt
  cases heq
  obtain ⟨levels, outer, rfl, -, hgroup, houter⟩ := primary_of_assignment hrun
  obtain ⟨levels, middle, close', rfl, hinner, hclose', hmiddle⟩ :=
    exists_of_group hfirst hgroup
  obtain ⟨levels, c'', rfl, -, hprimary, hpast⟩ := primary_of_assignment hinner
  obtain ⟨gap, hgap, hsplit⟩ :
      ∃ gap, Feeds gap ∧ inside ++ [close, stop] = gap ++ pastFeeds (inside ++ [close, stop]) :=
    Cursor.FeedsTo.pastNewlines (Cursor.mk first.span (inside ++ [close, stop]))
  have hended : Ended (pastFeeds (inside ++ [close, stop])) := by
    have hwhole : Ended (inside ++ [close, stop]) := ⟨stop, by simp, hstop⟩
    rw [hsplit] at hwhole
    exact hwhole.of_append fun token hmem => by simp [hgap token hmem]
  have hlength := congrArg List.length hsplit
  rw [List.length_append, List.length_append, List.length_cons, List.length_singleton] at hlength
  obtain ⟨own, hown, hforms, hanywhere⟩ := primary_anywhere hended (by omega) hprimary
  obtain ⟨gap', hgap', hafter⟩ := hpast.trans (.pastNewlines middle)
  rw [hown, hafter, hmiddle, ← List.append_assoc own, ← List.append_assoc] at hsplit
  have hrest : ∀ token ∈ (outer.rest.dropWhile (·.kind.separates)).head?, token.kind = .eof := by
    obtain ⟨feeds, hfeeds, houter⟩ := houter
    have hskips (token : Token) (hmem : token ∈ feeds) : token.kind.separates = true := by
      rw [hfeeds token hmem]
      rfl
    rw [houter, List.dropWhile_append_of_pos hskips]
    intro token hmem
    obtain ⟨more, hmore⟩ := List.head?_eq_some_iff.mp (Option.mem_def.mp hmem)
    rw [Cursor.kindAt, Cursor.pastSeparators, Cursor.skipWhile, hmore] at hbehind
    exact hbehind
  obtain ⟨-, rfl⟩ := eq_stop_of_separators hinside hclose hclose' hstop hsplit hrest
  exact ⟨levels, gap, own, gap', rfl, hgap, hgap', hforms, hanywhere⟩

end Parser

end Doctest.Script
