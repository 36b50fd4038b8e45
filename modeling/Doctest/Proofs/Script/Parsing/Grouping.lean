import Doctest.Proofs.Script.Comments
import Doctest.Proofs.Script.Parsing.Objects
import Doctest.Proofs.Script.Parsing.Totality

/-!
# Objects with and without parentheses

A text that is an object in parentheses is the same object without them, with two exceptions: the
text ends within a comment, which the closing parenthesis then belongs to, or its brace is taken for
that of a block. That is so of a brace at the start of a statement if a reserved word comes first in
it, or a name with a line break behind it.
-/

namespace Doctest.Script

/-! ### What a brace opens -/

/-- The tokens of an object stand between braces, or an object stands between parentheses. -/
theorem Forms.brackets_of_object {apart : List Token → Stmt → List Token → Prop}
    {own : List Token} {props : List (String × Expr)} {span : Span}
    (h : Forms apart own (.expr (.object props span))) :
    ∃ first inside last, own = first :: (inside ++ [last]) ∧
      (first.kind = .symbol .lparen ∧ last.kind = .symbol .rparen ∧ Matched inside ∨
        first.kind = .symbol .lbrace ∧ last.kind = .symbol .rbrace ∧
          Forms apart inside (.members props)) := by
  generalize hphrase : Phrase.expr (.object props span) = phrase at h
  cases h with
  | group h =>
    cases h with
    | enclosed hpartner hfirst h hlast =>
      cases hpartner
      exact ⟨_, _, _, rfl, .inl ⟨hfirst, hlast, h.matched⟩⟩
  | object h =>
    cases hphrase
    cases h with
    | enclosed hpartner hfirst h hlast =>
      cases hpartner
      exact ⟨_, _, _, rfl, .inr ⟨hfirst, hlast, h⟩⟩
  | @atom token make h =>
    obtain ⟨kind, span⟩ := token
    cases kind <;> cases h <;> cases hphrase
  | @operator _ _ _ _ _ op left right =>
    rw [Infix.build_eq_node] at hphrase
    generalize op.op = made at hphrase
    cases made <;> cases hphrase
  | _ => cases hphrase

/-- Whether a brace opens an object, by the first token in it that is no line break and the next
one. -/
def opensObject : TokenKind → TokenKind → Bool
  | .symbol .rbrace, _ => true
  | .string _, .symbol .colon | .number _, .symbol .colon => true
  | .ident _, .symbol .colon | .ident _, .symbol .comma | .ident _, .symbol .rbrace => true
  | _, _ => false

theorem startsObject_eq {c : Cursor} {inside behind : List TokenKind} {key : TokenKind}
    (hc : c.kinds = .symbol .lbrace :: inside)
    (hinside : inside.dropWhile (· = .newline) = key :: behind) :
    c.startsObject = opensObject key (behind.head?.getD .eof) := by
  have hadvance : c.advance.kinds = inside := by
    obtain ⟨rest, hrest, hadvance⟩ :=
      Cursor.exists_of_kindAt_zero (Cursor.kindAt_zero_of_kinds hc) nofun
    rw [hadvance]
    exact List.tail_eq_of_cons_eq (hrest.symm.trans hc)
  have hpast : c.advance.pastNewlines.kinds = key :: behind := by
    rw [Cursor.kinds_skipWhile, hadvance, hinside]
  have hfirst : c.advance.kindAt c.advance.newlines = key :=
    (c.advance.kindAt_newlines_add 0).trans (Cursor.kindAt_zero_of_kinds hpast)
  have hnext : c.advance.kindAt (c.advance.newlines + 1) = behind.head?.getD .eof := by
    rw [Cursor.kindAt_newlines_add, Cursor.kindAt_eq, hpast, List.head?_eq_getElem?]
    rfl
  unfold Cursor.startsObject
  dsimp only
  rw [hfirst, hnext]
  rfl

/-- Whether a key of an object, with the tokens behind it, is taken for the start of a statement: a
reserved word always is, and a name is if a line break follows. -/
def hidesKey : TokenKind → List TokenKind → Bool
  | .ident _, behind => behind.head? = some .newline
  | key, _ => (Parser.propertyName? key).isSome

/-- Whether the tokens of an object begin with a brace that is taken for that of a block. -/
def hidesObject (kinds : List TokenKind) : Bool :=
  match kinds.dropWhile (· = .newline) with
  | .symbol .lbrace :: inside =>
    match inside.dropWhile (· = .newline) with
    | key :: behind => hidesKey key behind
    | [] => false
  | _ => false

theorem opensObject_of_hidesKey {key : TokenKind} {behind : List TokenKind}
    (h : hidesKey key behind = true) : opensObject key (behind.head?.getD .eof) = false := by
  cases key with
  | ident name =>
    have hfeed : behind.head? = some .newline := of_decide_eq_true h
    rw [hfeed]
    rfl
  | bool | null | undefined | keyword => rfl
  | _ => cases h

/-- What may stand behind a key without a value. -/
def Shortens (rest : List TokenKind) : Prop :=
  rest.head? = some .newline ∨ rest.head? = some (.symbol .comma) ∨
    rest.head? = some (.symbol .rbrace)

theorem Feeds.shortens {gap : List Token} (h : Feeds gap) {mark : Symbol}
    (hmark : mark = .comma ∨ mark = .rbrace) (rest : List TokenKind) :
    Shortens (gap.map Token.kind ++ .symbol mark :: rest) := by
  cases gap with
  | nil => rcases hmark with rfl | rfl <;> simp [Shortens]
  | cons token gap => simp [Shortens, h token List.mem_cons_self]

variable {apart : List Token → Stmt → List Token → Prop}

/-- The key of an object tells it, unless it is hidden. -/
theorem Forms.opensObject_member {own : List Token} {name : String} {e : Expr}
    (h : Forms apart own (.member name e)) {rest : List TokenKind} (hrest : Shortens rest) :
    ∃ key behind, own.map Token.kind ++ rest = key :: behind ∧ key ≠ .newline ∧
      (opensObject key (behind.head?.getD .eof) = true ∨ hidesKey key behind = true) := by
  cases h with
  | @keyed key colon gap own _ _ hkey hcolon =>
    refine ⟨key.kind, .symbol .colon :: ((gap ++ own).map Token.kind ++ rest), ?_, ?_, ?_⟩
    · simp [hcolon]
    · exact Parser.ne_of_keyOf? hkey rfl
    · generalize key.kind = kind at hkey
      cases kind with
      | string | number | ident => exact .inl rfl
      | bool | null | undefined | keyword => exact .inr rfl
      | _ => cases hkey
  | @shorthand key name hkey =>
    refine ⟨.ident name, rest, by simp [hkey], nofun, ?_⟩
    rcases hrest with hfeed | hcomma | hbrace
    · exact .inr (decide_eq_true hfeed)
    · exact .inl (by rw [hcomma]; rfl)
    · exact .inl (by rw [hbrace]; rfl)

/-- Behind the opening brace of an object a key comes first, or the closing brace. -/
theorem Forms.opensObject_or_hidesKey {inside : List Token} {props : List (String × Expr)}
    (h : Forms apart inside (.members props)) (rest : List TokenKind) :
    ∃ key behind,
      (inside.map Token.kind ++ .symbol .rbrace :: rest).dropWhile (· = .newline) =
        key :: behind ∧
      (opensObject key (behind.head?.getD .eof) = true ∨ hidesKey key behind = true) := by
  have hpast {gap : List Token} (hgap : Feeds gap) {key : TokenKind} (behind : List TokenKind)
      (hkey : key ≠ .newline) :
      (gap.map Token.kind ++ key :: behind).dropWhile (· = .newline) = key :: behind := by
    rw [List.dropWhile_append_of_pos, List.dropWhile_cons_of_neg (by simpa using hkey)]
    rintro kind hmem
    obtain ⟨token, htoken, rfl⟩ := List.mem_map.mp hmem
    exact decide_eq_true (hgap token htoken)
  cases h with
  | noMembers hgap => exact ⟨.symbol .rbrace, rest, hpast hgap _ nofun, .inl rfl⟩
  | @lastMember gap own gap' name e hgap hmember hgap' =>
    obtain ⟨key, behind, hsplit, hkey, hopens⟩ :=
      hmember.opensObject_member (hgap'.shortens (.inr rfl) rest)
    refine ⟨key, behind, ?_, hopens⟩
    rw [← hpast hgap behind hkey, ← hsplit]
    simp
  | @nextMember gap own gap' more comma name e props hgap hmember hgap' hcomma =>
    obtain ⟨key, behind, hsplit, hkey, hopens⟩ := hmember.opensObject_member
      (hgap'.shortens (.inl rfl) (more.map Token.kind ++ .symbol .rbrace :: rest))
    refine ⟨key, behind, ?_, hopens⟩
    rw [← hpast hgap behind hkey, ← hsplit]
    simp [hcomma]

/-! ### Objects without parentheses -/

/-- Line breaks and the end separate a statement from nothing. -/
theorem exists_separator {c : Cursor} {gap : List TokenKind}
    (hgap : ∀ kind ∈ gap, kind = .newline) (hc : c.kinds = gap ++ [.eof]) :
    ∃ c', Parser.separator c = .ok ((), c') ∧ c'.pastSeparators.kindAt 0 = .eof := by
  have hend : c.pastSeparators.kinds = [.eof] := by
    rw [Cursor.kinds_skipWhile, hc, List.dropWhile_append_of_pos]
    · rfl
    · intro kind hmem
      rw [hgap kind hmem]
      rfl
  have hruns : ∃ c', Parser.separator c = .ok ((), c') := by
    rw [Parser.separator, Parser.bind_kind_apply]
    cases gap with
    | nil =>
      rw [Cursor.kindAt_zero_of_kinds hc]
      exact ⟨_, rfl⟩
    | cons first gap =>
      rw [Cursor.kindAt_zero_of_kinds hc, hgap first List.mem_cons_self]
      exact ⟨_, rfl⟩
  obtain ⟨c', hrun⟩ := hruns
  have hstop : c'.pastSeparators.kinds = [.eof] :=
    (Parser.separator_pastSeparators hrun).trans hend
  exact ⟨c', hrun, Cursor.kindAt_zero_of_kinds hstop⟩

/-- How a statement begins that is an object by itself. -/
structure Cursor.OpensObject (c : Cursor) : Prop where
  opens : c.kindAt 0 = .symbol .lparen ∨ c.kindAt 0 = .symbol .lbrace ∧ c.startsObject = true
  noArrow : c.startsArrow = false

theorem Cursor.OpensObject.first {c : Cursor} (h : c.OpensObject) :
    (c.kindAt 0).unary? = none ∧ c.kindAt 0 ≠ .eof := by
  rcases h.opens with hopen | ⟨hopen, -⟩
  · rw [hopen]
    exact ⟨rfl, nofun⟩
  · rw [hopen]
    exact ⟨rfl, nofun⟩

/-- The tokens of an object begin a statement that is one, unless its brace is hidden. -/
theorem Forms.opensObject {own : List Token} {k : TokenKind} {rest : List TokenKind}
    {props : List (String × Expr)} {span : Span} {c : Cursor}
    (h : Forms apart own (.expr (.object props span)))
    (hc : c.kinds = own.map Token.kind ++ k :: rest) (hk : k ≠ .symbol .arrow)
    (hhides : hidesObject c.kinds = false) : c.OpensObject := by
  obtain ⟨first, inside, close, rfl, hsort⟩ := h.brackets_of_object
  rcases hsort with ⟨hfirst, hclose, hmatched⟩ | ⟨hfirst, hclose, hmembers⟩
  · have hkinds : c.kinds = .symbol .lparen ::
        (inside.map Token.kind ++ .symbol .rparen :: (k :: rest)) := by
      simp [hc, hfirst, hclose]
    refine ⟨.inl (Cursor.kindAt_zero_of_kinds hkinds), ?_⟩
    rw [startsArrow_group hmatched.enclosed hkinds]
    exact decide_eq_false fun heq => hk (Option.some.inj heq)
  · have hkinds : c.kinds = .symbol .lbrace ::
        (inside.map Token.kind ++ .symbol .rbrace :: (k :: rest)) := by
      simp [hc, hfirst, hclose]
    obtain ⟨key, behind, hinside, hopens⟩ := hmembers.opensObject_or_hidesKey (k :: rest)
    have hshown : hidesKey key behind = false := by
      rw [hkinds, hidesObject, List.dropWhile_cons_of_neg (by decide)] at hhides
      dsimp only at hhides
      rwa [hinside] at hhides
    have hobject : c.startsObject = true := by
      rw [startsObject_eq hkinds hinside]
      exact hopens.resolve_right (by simp [hshown])
    refine ⟨.inr ⟨Cursor.kindAt_zero_of_kinds hkinds, hobject⟩, ?_⟩
    exact startsArrow_eq_false hkinds nofun nofun

/-- Line breaks in front of the tokens do not matter to whether a brace is hidden. -/
theorem hidesObject_append {gap : List Token} (hgap : Feeds gap) (rest : List Token) :
    hidesObject ((gap ++ rest).map Token.kind) = hidesObject (rest.map Token.kind) := by
  rw [hidesObject, hidesObject, List.map_append, List.dropWhile_append_of_pos]
  rintro kind hmem
  obtain ⟨token, htoken, rfl⟩ := List.mem_map.mp hmem
  exact decide_eq_true (hgap token htoken)

/-- An object with line breaks around it is read as a statement. -/
theorem exists_bare_program {m : Nat} {gap own gap' : List Token} {stop : Token} {last : Span}
    {props : List (String × Expr)} {span : Span} (hgap : Feeds gap) (hgap' : Feeds gap')
    (hforms : Forms apart own (.expr (.object props span))) (hstop : stop.kind = .eof)
    (hread : ∀ last others, ∃ c', primary m false ⟨last, own ++ others⟩ =
      .ok (.object props span, c') ∧ c'.rest = others)
    (hhides : hidesObject ((gap ++ (own ++ (gap' ++ [stop]))).map Token.kind) = false) :
    ∃ c', programStatements 2 (m + 6) ⟨last, gap ++ (own ++ (gap' ++ [stop]))⟩ =
      .ok ([.expr (.object props span) span], c') := by
  generalize hc : (Cursor.mk last (gap ++ (own ++ (gap' ++ [stop])))).pastSeparators = c
  have hrest : c.rest = own ++ (gap' ++ [stop]) := by
    obtain ⟨first, inside, close, rfl, hsort⟩ := hforms.brackets_of_object
    have hfirst : first.kind.separates = false := by
      rcases hsort with ⟨hfirst, -⟩ | ⟨hfirst, -⟩
      · rw [hfirst]
        rfl
      · rw [hfirst]
        rfl
    have hskips (token : Token) (hmem : token ∈ gap) : token.kind.separates = true := by
      rw [hgap token hmem]
      rfl
    rw [← hc, Cursor.pastSeparators, Cursor.skipWhile]
    dsimp only
    rw [List.dropWhile_append_of_pos hskips, List.cons_append,
      List.dropWhile_cons_of_neg (by simp [hfirst])]
  -- Behind the object only line breaks stand, and then the end.
  have hfeeds : ∀ kind ∈ gap'.map Token.kind, kind = .newline := by
    rintro kind hmem
    obtain ⟨token, htoken, rfl⟩ := List.mem_map.mp hmem
    exact hgap' token htoken
  have hbehind : (gap' ++ [stop]).map Token.kind = gap'.map Token.kind ++ [.eof] := by
    simp [hstop]
  have hopens : c.OpensObject := by
    obtain ⟨k, rest, hk, hne⟩ : ∃ k rest, (gap' ++ [stop]).map Token.kind = k :: rest ∧
        k ≠ .symbol .arrow := by
      cases gap' with
      | nil => exact ⟨stop.kind, [], rfl, by simp [hstop]⟩
      | cons token gap' =>
        exact ⟨token.kind, _, rfl, by simp [hgap' token List.mem_cons_self]⟩
    have hahead : c.kinds = own.map Token.kind ++ k :: rest := by
      rw [Cursor.kinds, hrest, List.map_append, hk]
    have hshown : hidesObject c.kinds = false := by
      rwa [hidesObject_append hgap, ← hrest] at hhides
    exact hforms.opensObject hahead hne hshown
  obtain ⟨hunary, hne⟩ := hopens.first
  obtain ⟨c', hprimary, hc'⟩ := hread c.last (gap' ++ [stop])
  rw [← hrest] at hprimary
  have hkinds : c'.kinds = gap'.map Token.kind ++ [.eof] := by
    rw [Cursor.kinds, hc', hbehind]
  have hrun : assignment (m + 4) false c = .ok (.object props span, c') :=
    Parser.assignment_of_primary hprimary hopens.noArrow hunary hfeeds rfl hkinds
  have hstmt : statement (m + 6) false c = .ok (.expr (.object props span) span, c') := by
    rw [Parser.statement_eq_expressionStatement hopens.opens, expressionStatement,
      Parser.bind_apply, hrun]
    rfl
  obtain ⟨c'', hseparator, heof⟩ := exists_separator hfeeds hkinds
  rw [← hc] at hne hstmt
  rw [programStatements_of_ne_eof hne, Parser.bind_apply, hstmt]
  have hneeds : (Stmt.expr (.object props span) span).needsSeparator = true := rfl
  dsimp only
  rw [hneeds, if_pos rfl, Parser.bind_apply, hseparator]
  dsimp only
  rw [Parser.bind_apply, programStatements_of_eof heof]
  exact ⟨_, rfl⟩

/-! ### Texts -/

/-- Where each bracket has its partner, as many parentheses are opened as are closed. -/
theorem Matched.count_eq {own : List Token} (h : Matched own) :
    (own.map Token.kind).count (.symbol .lparen) =
      (own.map Token.kind).count (.symbol .rparen) := by
  induction h with
  | nil => rfl
  | @flat token rest hflat _ ih =>
    have hopen : token.kind ≠ .symbol .lparen := by
      intro heq
      rw [heq] at hflat
      cases hflat
    have hclose : token.kind ≠ .symbol .rparen := by
      intro heq
      rw [heq] at hflat
      cases hflat
    rw [List.map_cons, List.count_cons_of_ne hopen, List.count_cons_of_ne hclose, ih]
  | @pair first last left right inside rest hpartner hfirst _ hlast _ ihinside ih =>
    simp only [List.map_cons, List.map_append, List.count_cons, List.count_append, hfirst, hlast,
      ihinside, ih]
    cases left <;> cases hpartner <;> (simp; try omega)

/-- A brace that is hidden begins no object. -/
theorem ne_object_of_hidesObject {fuel levels : Nat} {c c' : Cursor} {stmt : Stmt}
    {props : List (String × Expr)} {span span' : Span} (h : hidesObject c.kinds = true)
    (hrun : programStatements fuel levels c = .ok ([stmt], c')) :
    stmt.mapSpans noSpan ≠ (Stmt.expr (.object props span) span').mapSpans noSpan := by
  obtain ⟨inside, key, behind, hopen, hinside, hhides⟩ : ∃ inside key behind,
      c.kinds.dropWhile (· = .newline) = .symbol .lbrace :: inside ∧
      inside.dropWhile (· = .newline) = key :: behind ∧ hidesKey key behind = true := by
    unfold hidesObject at h
    split at h
    · next inside hopen =>
      split at h
      · next key behind hinside => exact ⟨inside, key, behind, hopen, hinside, h⟩
      · cases h
    · cases h
  have hkinds : c.pastSeparators.kinds = .symbol .lbrace :: inside := by
    have hsplit := List.takeWhile_append_dropWhile (p := fun kind : TokenKind => kind = .newline)
      (l := c.kinds)
    rw [hopen] at hsplit
    rw [Cursor.kinds_skipWhile, ← hsplit, List.dropWhile_append_of_pos]
    · rfl
    · intro kind hmem
      have hfeed : kind = .newline := by simpa using List.mem_takeWhile_imp hmem
      rw [hfeed]
      rfl
  have hblock : c.pastSeparators.startsObject = false :=
    (startsObject_eq hkinds hinside).trans (opensObject_of_hidesKey hhides)
  obtain ⟨c'', hstmt, -⟩ := Parser.exists_of_single hrun
  obtain _ | levels := levels
  · cases hstmt
  rw [statement, Parser.bind_get_apply, Parser.bind_kind_apply,
    Cursor.kindAt_zero_of_kinds hkinds] at hstmt
  dsimp only at hstmt
  rw [Parser.bind_get_apply, hblock, if_neg Bool.false_ne_true] at hstmt
  obtain ⟨stmts, _, -, hstmt⟩ := Parser.exists_of_bind hstmt
  obtain ⟨span, _, -, hstmt⟩ := Parser.exists_of_bind hstmt
  cases hstmt
  simp [Stmt.mapSpans]

section Whole

variable {text : String} {props : List (String × Expr)} {span span' : Span}

/-- In a text that is read as many parentheses are opened as are closed. -/
theorem count_eq_of_parse {source : String} {program : List Stmt} {kinds : List TokenKind}
    (h : parse source = .ok program) (hscans : Scans source.toList kinds) :
    kinds.count (.symbol .lparen) = kinds.count (.symbol .rparen) := by
  obtain ⟨own, stop, htokens, hstop, hforms⟩ :=
    Parser.forms_of_parse Parser.separatedBy_anything h
  obtain ⟨found, hfound, hkinds⟩ := hscans.exists_tokens 0
  cases htokens.symm.trans hfound
  rw [List.map_append] at hkinds
  obtain ⟨hown, -⟩ := List.append_inj' hkinds rfl
  exact hown ▸ hforms.matched.count_eq

/-- The tokens of a text in parentheses, which are those of the text or go on in a comment. -/
theorem exists_scans_of_group {program : List Stmt} (h : parse ("(" ++ text ++ ")") = .ok program) :
    ∃ own, Scans text.toList own ∧
      (EndsInComment text.toList ∧
          Scans ("(" ++ text ++ ")").toList (.symbol .lparen :: own) ∨
        ¬ EndsInComment text.toList ∧
          Scans ("(" ++ text ++ ")").toList (.symbol .lparen :: (own ++ [.symbol .rparen]))) := by
  obtain ⟨all, -, -, hall, -⟩ := exists_scans_of_parse h
  have htext : ("(" ++ text ++ ")").toList = '(' :: (text.toList ++ [')']) := by simp
  have hgroup := hall
  rw [htext] at hgroup
  obtain ⟨own, hown, hends⟩ := hgroup.of_group
  refine ⟨own, hown, hends.imp ?_ ?_⟩
  · rintro ⟨hin, rfl⟩
    exact ⟨hin, hall⟩
  · rintro ⟨hout, rfl⟩
    exact ⟨hout, hall⟩

/-- A text that ends within a comment is not balanced, if it is with a parenthesis before it. -/
theorem not_endsInComment {program stmts : List Stmt}
    (h : parse ("(" ++ text ++ ")") = .ok program) (hparse : parse text = .ok stmts) :
    ¬ EndsInComment text.toList := by
  intro hin
  obtain ⟨own, hown, hends⟩ := exists_scans_of_group h
  obtain ⟨-, hall⟩ := hends.resolve_right fun hout => hout.1 hin
  have hcount := count_eq_of_parse h hall
  have hcount' := count_eq_of_parse hparse hown
  rw [List.count_cons_self, List.count_cons_of_ne (by decide), hcount'] at hcount
  omega

/-- What is read of the tokens of a text with more levels is what is taken. -/
theorem parse_of_run {found : List Token} {program : List Stmt} {last : Cursor} {fuel levels : Nat}
    (h : tokens text = .ok found) (hfuel : found.length ≤ fuel)
    (hlevels : 10 * found.length + 9 ≤ levels)
    (hrun : programStatements fuel levels ⟨⟨0, 0⟩, found⟩ = .ok (program, last)) :
    parse text = .ok program := by
  cases reads_of_tokens h with
  | takes _ hparse hruns =>
    have hsame := hruns fuel levels ⟨0, 0⟩ [] hfuel hlevels
    rw [List.append_nil] at hsame
    cases hrun.symm.trans hsame
    exact hparse
  | fails _ _ _ hruns =>
    have hfails := hruns fuel levels ⟨0, 0⟩ [] hfuel hlevels
    rw [List.append_nil] at hfails
    cases hrun.symm.trans hfails

/-- A text that is an object in parentheses is it by itself if the closing one is a token and the
brace is not hidden. -/
theorem exists_bare_parse
    (h : parse ("(" ++ text ++ ")") = .ok [.expr (.object props span) span'])
    (hclosed : ¬ EndsInComment text.toList)
    (hshown : ∀ found, tokens text = .ok found → hidesObject (found.map Token.kind) = false) :
    ∃ stmt, parse text = .ok [stmt] ∧
      stmt.mapSpans noSpan = (Stmt.expr (.object props span) span').mapSpans noSpan := by
  obtain ⟨own, hown, hends⟩ := exists_scans_of_group h
  obtain ⟨-, hall⟩ := hends.resolve_left fun hin => hclosed hin.1
  obtain ⟨found, last, hfound, hrun⟩ := exists_of_parse h
  obtain ⟨found', hfound', hkinds⟩ := hall.exists_tokens 0
  cases hfound.symm.trans hfound'
  obtain ⟨bare, hbare, hbareKinds⟩ := hown.exists_tokens 0
  -- The parentheses and the end are the first token and the last two.
  rw [List.cons_append, List.append_assoc] at hkinds
  obtain ⟨first, more, rfl, hfirst, hmore⟩ := List.map_eq_cons_iff.mp hkinds
  obtain ⟨inside, behind, rfl, hinside, hbehind⟩ := List.map_eq_append_iff.mp hmore
  obtain ⟨close, rest, rfl, hclose, hrest⟩ := List.map_eq_cons_iff.mp hbehind
  obtain ⟨stop, rfl, hstop⟩ := List.map_eq_singleton_iff.mp hrest
  have hnoEnd (token : Token) (hmem : token ∈ inside) : token.kind ≠ .eof := by
    intro heof
    have hin : TokenKind.eof ∈ own := hinside ▸ heof ▸ List.mem_map_of_mem hmem
    exact hown.eof_not_mem hin
  have hlevels : 10 * inside.length + 40 ≤
      10 * (first :: (inside ++ [close, stop])).length + 10 := by
    rw [List.length_cons, List.length_append, List.length_cons, List.length_singleton]
    omega
  obtain ⟨m, gap, core, gap', hsplit, hgap, hgap', hforms, hread⟩ :=
    Parser.exists_of_group_program hfirst hnoEnd hclose hstop hlevels hrun
  have hahead : (gap ++ (core ++ (gap' ++ [stop]))).map Token.kind = own ++ [.eof] := by
    rw [← hinside, hsplit, ← hstop]
    simp
  have hkept : hidesObject ((gap ++ (core ++ (gap' ++ [stop]))).map Token.kind) = false := by
    rw [hahead, ← hbareKinds]
    exact hshown bare hbare
  obtain ⟨c', hbareRun⟩ :=
    exists_bare_program hgap hgap' hforms hstop hread hkept
  -- The tokens of the text by itself are the same but for their spans.
  have hcursor : (Cursor.mk ⟨0, 0⟩ (gap ++ (core ++ (gap' ++ [stop])))).kinds = own ++ [.eof] :=
    hahead
  have hsame : (Cursor.mk ⟨0, 0⟩ bare).pastSeparators.kinds =
      (Cursor.mk ⟨0, 0⟩ (gap ++ (core ++ (gap' ++ [stop])))).pastSeparators.kinds := by
    rw [Cursor.kinds_skipWhile, Cursor.kinds_skipWhile, hcursor, ← hbareKinds]
    rfl
  obtain ⟨again, last', hagain, hview⟩ := exists_again hcursor hown.eof_not_mem hsame hbareRun
    (Nat.le_add_left (m + 6) (10 * bare.length + 9)) (Nat.le_add_left 2 bare.length)
  have hparse := parse_of_run hbare (Nat.le_add_right _ _) (Nat.le_add_right _ _) hagain
  obtain _ | ⟨stmt, _ | ⟨next, others⟩⟩ := again
  · cases hview
  · exact ⟨stmt, hparse, (List.cons.inj hview).1⟩
  · cases (List.cons.inj hview).2

/-- **An object in parentheses and the text by itself.** A text that is an object in parentheses is
the same object without them just if it does not end within a comment and its brace is not taken
for that of a block. -/
theorem bare_object_iff
    (h : parse ("(" ++ text ++ ")") = .ok [.expr (.object props span) span']) :
    (∃ stmt, parse text = .ok [stmt] ∧
      stmt.mapSpans noSpan = (Stmt.expr (.object props span) span').mapSpans noSpan) ↔
    ¬ EndsInComment text.toList ∧
      ∀ found, tokens text = .ok found → hidesObject (found.map Token.kind) = false := by
  constructor
  · rintro ⟨stmt, hparse, hsame⟩
    refine ⟨not_endsInComment h hparse, fun found hfound => ?_⟩
    obtain ⟨found', last, hfound', hrun⟩ := exists_of_parse hparse
    cases hfound.symm.trans hfound'
    by_contra hhides
    have hhidden : hidesObject (Cursor.mk ⟨0, 0⟩ found).kinds = true :=
      Bool.eq_true_of_not_eq_false hhides
    exact ne_object_of_hidesObject hhidden hrun hsame
  · rintro ⟨hclosed, hshown⟩
    exact exists_bare_parse h hclosed hshown

/-- The object that a program is, with its spans, if it is one. -/
def objectOf? : Except Fault (List Stmt) → Option (List (String × Expr) × Span × Span)
  | .ok [.expr (.object props span) span'] => some (props, span, span')
  | _ => none

theorem exists_of_objectOf? {result : Except Fault (List Stmt)}
    (h : (objectOf? result).isSome = true) :
    ∃ props span span', result = .ok [.expr (.object props span) span'] := by
  unfold objectOf? at h
  split at h
  · exact ⟨_, _, _, rfl⟩
  · cases h

theorem bare_object_sample :
    ∃ props span span',
      parse ("(" ++ "\x7b a: b, c \x7d" ++ ")") = .ok [.expr (.object props span) span'] ∧
      ((∃ stmt, parse "\x7b a: b, c \x7d" = .ok [stmt] ∧
        stmt.mapSpans noSpan = (Stmt.expr (.object props span) span').mapSpans noSpan) ↔
      ¬ EndsInComment "\x7b a: b, c \x7d".toList ∧
        ∀ found, tokens "\x7b a: b, c \x7d" = .ok found →
          hidesObject (found.map Token.kind) = false) := by
  have hobject : (objectOf? (parse ("(" ++ "\x7b a: b, c \x7d" ++ ")"))).isSome = true := by
    decide +kernel
  obtain ⟨props, span, span', hparse⟩ := exists_of_objectOf? hobject
  exact ⟨props, span, span', hparse, bare_object_iff hparse⟩

/-- An object whose first key is a reserved word is none without its parentheses. -/
theorem hidden_object :
    ∃ props span span',
      parse ("(" ++ "\x7b null: 1 \x7d" ++ ")") = .ok [.expr (.object props span) span'] ∧
      ¬ ∃ stmt, parse "\x7b null: 1 \x7d" = .ok [stmt] ∧
        stmt.mapSpans noSpan = (Stmt.expr (.object props span) span').mapSpans noSpan := by
  have hobject : (objectOf? (parse ("(" ++ "\x7b null: 1 \x7d" ++ ")"))).isSome = true := by
    decide +kernel
  have hfails : (parse "\x7b null: 1 \x7d").isOk = false := by
    decide +kernel
  obtain ⟨props, span, span', hparse⟩ := exists_of_objectOf? hobject
  refine ⟨props, span, span', hparse, ?_⟩
  rintro ⟨stmt, hbare, -⟩
  rw [hbare] at hfails
  cases hfails

end Whole

end Doctest.Script
