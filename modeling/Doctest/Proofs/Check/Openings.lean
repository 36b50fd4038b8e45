import Doctest.Proofs.Check.Classification
import Doctest.Proofs.Script.Parsing.Joining
import Doctest.Proofs.Script.Parsing.Sentences
import Doctest.Proofs.Script.Spelling

/-!
# Lines that are scripts

No script begins as the lines do that ask for something else than an output: with a comparison, with
a point, or with a name before a colon or another name. So a line that is a script is an output.
-/

namespace Doctest

namespace Script

/-! ### Tokens that are no program -/

theorem TokenKind.unary?_of_not_begins {k : TokenKind} (hk : k.begins = false) :
    k.unary? = none := by
  cases k with
  | symbol mark => cases mark <;> first | rfl | cases hk
  | keyword word => cases word <;> first | rfl | cases hk
  | _ => rfl

namespace Parser

variable {α β : Type} {c : Cursor} {k : TokenKind} {rest : List TokenKind} {fuel levels : Nat}
  {inBody : Bool}

/-- A parser gives nothing on some tokens. -/
def Stops (c : Cursor) (x : Parser α) : Prop :=
  ∀ a c', x c ≠ .ok (a, c')

namespace Stops

theorem failDeep : Stops c (Parser.failDeep : Parser α) :=
  nofun

theorem bind {x : Parser α} {f : α → Parser β} (hx : Stops c x) : Stops c (x >>= f) := by
  intro b c' hrun
  obtain ⟨a, middle, hfirst, -⟩ := exists_of_bind hrun
  exact hx a middle hfirst

/-- What is read before leaves tokens on which the rest gives nothing. -/
theorem after {x : Parser α} {f : α → Parser β} {middle : List TokenKind} {result : α → Prop}
    (hx : Reads middle result c x)
    (hf : ∀ a c', c'.kinds = middle → result a → Stops c' (f a)) : Stops c (x >>= f) := by
  intro b last hrun
  obtain ⟨a, c', hfirst, hmiddle, ha⟩ := hx
  rw [bind_apply, hfirst] at hrun
  exact hf a c' hmiddle ha b last hrun

theorem kind {f : TokenKind → Parser β} (hc : c.kinds = k :: rest) (h : Stops c (f k)) :
    Stops c (Parser.kind >>= f) := by
  change Stops c (f (c.kindAt 0))
  rwa [Cursor.kindAt_zero_of_kinds hc]

theorem get {f : Cursor → Parser β} (h : Stops c (f c)) : Stops c (MonadState.get >>= f) :=
  h

theorem failHere : Stops c (Parser.failHere : Parser α) :=
  nofun

end Stops

section Beginning

variable (hk : k.begins = false) (hc : c.kinds = k :: rest)
include hk hc

/-- No operand begins with the token that comes next. -/
theorem primary_stops : Stops c (primary fuel inBody) := by
  cases fuel with
  | zero => exact .failDeep
  | succ fuel =>
    rw [primary]
    refine .get ?_
    dsimp only
    rw [c.current_kind, Cursor.kindAt_zero_of_kinds hc]
    split
    case h_11 => exact .failHere
    all_goals cases hk

theorem unary_stops : Stops c (unary fuel inBody) := by
  cases fuel with
  | zero => exact .failDeep
  | succ fuel =>
    rw [unary]
    refine .get (.kind hc ?_)
    rw [TokenKind.unary?_of_not_begins hk]
    exact (primary_stops hk hc).bind

theorem assignment_stops : Stops c (assignment fuel inBody) := by
  have hne {other : TokenKind} (hother : other.begins = true) : k ≠ other := by
    rintro rfl
    rw [hk] at hother
    cases hother
  have hbinary (fuel : Nat) : Stops c (binary fuel inBody 0) := by
    cases fuel with
    | zero => exact .failDeep
    | succ fuel =>
      rw [binary]
      exact (unary_stops hk hc).bind
  have hconditional (fuel : Nat) : Stops c (conditional fuel inBody) := by
    cases fuel with
    | zero => exact .failDeep
    | succ fuel =>
      rw [conditional]
      exact (hbinary fuel).bind
  cases fuel with
  | zero => exact .failDeep
  | succ fuel =>
    rw [assignment]
    refine .get ?_
    rw [startsArrow_eq_false hc (fun name => hne rfl) (hne rfl), if_neg Bool.false_ne_true]
    exact (hconditional fuel).bind

end Beginning

/-- What gives nothing on a statement gives nothing on the program that begins with it. -/
theorem programStatements_stops (hsep : k.separates = false) (heof : k ≠ .eof)
    (hc : c.kinds = k :: rest)
    (h : ∀ c' : Cursor, c'.kinds = k :: rest → Stops c' (do
      let stmt ← statement levels false
      if stmt.needsSeparator then Parser.separator
      return stmt :: (← programStatements (fuel - 1) levels))) :
    Stops c (programStatements fuel levels) := by
  cases fuel with
  | zero => exact .failDeep
  | succ fuel =>
    have hbehind : c.pastSeparators.kinds = k :: rest := by
      rw [Cursor.kinds_skipWhile, hc, dropWhile_of_head hsep]
    have hkind := Cursor.kindAt_zero_of_kinds hbehind
    intro stmts last hrun
    rw [programStatements_of_ne_eof (hkind ▸ heof)] at hrun
    exact h _ hbehind stmts last hrun

/-- No program begins with a symbol with which no expression begins. -/
theorem symbol_stops {mark : Symbol} (hk : (TokenKind.symbol mark).begins = false)
    (hsep : mark ≠ .semi) (hc : c.kinds = .symbol mark :: rest) :
    Stops c (programStatements fuel levels) := by
  have hseparates : (TokenKind.symbol mark).separates = false := by
    refine decide_eq_false fun heq => ?_
    rcases heq with heq | heq <;> cases heq
    exact hsep rfl
  have hstatement (levels : Nat) {c : Cursor} (hc : c.kinds = .symbol mark :: rest) :
      Stops c (statement levels false) := by
    cases levels with
    | zero => exact .failDeep
    | succ levels =>
      rw [statement]
      refine .get (.kind hc ?_)
      split
      case h_7 heq =>
        cases heq
        cases hk
      case h_8 =>
        cases levels with
        | zero => exact .failDeep
        | succ levels =>
          rw [expressionStatement]
          exact (assignment_stops hk hc).bind
      all_goals contradiction
  refine programStatements_stops hseparates (by simp) hc fun c' hc' => ?_
  exact (hstatement levels hc').bind

/-- No program begins with a name before a token with which neither an expression goes on nor a
statement ends. -/
theorem name_stops {name : String} (hk : k.Ending) (hsep : k.separates = false) (heof : k ≠ .eof)
    (hbrace : k ≠ .symbol .rbrace) (hc : c.kinds = .ident name :: k :: rest)
    (hlevels : 16 ≤ levels) : Stops c (programStatements fuel levels) := by
  have hstatement {c : Cursor} (hc : c.kinds = .ident name :: k :: rest) :
      Reads (k :: rest) (fun stmt => stmt.needsSeparator = true) c (statement levels false) := by
    obtain ⟨n, rfl⟩ : ∃ n, levels = n + 3 := ⟨levels - 3, by omega⟩
    have hinner : 10 * [TokenKind.ident name].length + 3 ≤ n := by
      rw [List.length_singleton]
      omega
    have hname : IsOperand [.ident name] fun _ => True :=
      (isPrimary_atom (k := .ident name) rfl).operand.mono fun _ _ => trivial
    refine statement_of_begins (k := .ident name) rfl (by simp) hc ?_
    rw [expressionStatement]
    have hreads : Reads (k :: rest) (fun _ => True) c (assignment (n + 1) false) :=
      reads_assignment (startsArrow_ident hc hk.arrow) hk.assignment
        (hname.reads_conditional hk.suffix hk.operator hk.question hc hinner)
    exact hreads.bind fun _ _ hc' _ => .pure hc' rfl
  have hseparator {c : Cursor} (hc : c.kinds = k :: rest) : Stops c Parser.separator := by
    refine .kind hc ?_
    split
    · cases hsep
    · cases hsep
    · exact absurd rfl heof
    · exact absurd rfl hbrace
    · exact .failHere
  refine programStatements_stops (k := .ident name) rfl (by simp) hc fun c' hc' => ?_
  refine .after (hstatement hc') fun stmt c hc hneeds => ?_
  rw [hneeds, if_pos rfl]
  exact (hseparator hc).bind

end Parser

/-! ### Texts that are no program -/

section Texts

open Doctest.Script.Parser (name_stops symbol_stops)

variable {c d : Char} {s t : List Char} {own : List TokenKind} {kind : TokenKind} {count : Nat}

theorem Scans.of_token (h : Scans (c :: s) own) (hlexeme : lexeme c s = .ok (some kind, count)) :
    ∃ more, own = kind :: more ∧ Scans (s.drop count) more := by
  cases h with
  | passed hpassed _ =>
    rw [hlexeme] at hpassed
    cases hpassed
  | token htoken hrest =>
    rw [hlexeme] at htoken
    cases htoken
    exact ⟨_, rfl, hrest⟩

theorem Scans.of_passed (h : Scans (c :: s) own) (hlexeme : lexeme c s = .ok (none, count)) :
    Scans (s.drop count) own := by
  cases h with
  | passed hpassed hrest =>
    rw [hlexeme] at hpassed
    cases hpassed
    exact hrest
  | token htoken _ =>
    rw [hlexeme] at htoken
    cases htoken

/-- A word at the front of a text is its first token. -/
theorem Scans.of_word (hc : isWordStart c = true) (hs : s.all isWordPart = true)
    (ht : ∀ e ∈ t.head?, isWordPart e = false) (h : Scans (c :: (s ++ t)) own) :
    ∃ more, own = wordKind (String.ofList (c :: s)) :: more ∧ Scans t more := by
  have htake : (s ++ t).takeWhile isWordPart = s :=
    Number.takeWhile_until (List.all_eq_true.mp hs) ht
  have hlexeme := lexeme_of_isWordStart hc (s ++ t)
  rw [htake] at hlexeme
  have hsplit := h.of_token hlexeme
  rwa [List.drop_left] at hsplit

variable {code : String} {program : List Stmt}

/-- A program begins with no symbol with which no expression begins. -/
theorem not_prefix_symbol {mark : Symbol} (h : parse code = .ok program)
    (hlexeme : ∀ t, lexeme c (s ++ t) = .ok (some (.symbol mark), count))
    (hmark : (TokenKind.symbol mark).begins = false) (hsep : mark ≠ .semi) :
    ¬ c :: s <+: code.toList := by
  rintro ⟨t, htext⟩
  obtain ⟨own, cursor, last, hscans, hcursor, hrun⟩ := exists_scans_of_parse h
  rw [← htext, List.cons_append] at hscans
  obtain ⟨more, rfl, -⟩ := hscans.of_token (hlexeme t)
  exact symbol_stops hmark hsep hcursor program last hrun

/-- No program begins with a name and a colon. -/
theorem not_prefix_colon {name : String} (h : parse code = .ok program)
    (hc : isWordStart c = true) (hs : s.all isWordPart = true)
    (hname : wordKind (String.ofList (c :: s)) = .ident name) (t : List Char) :
    ¬ c :: (s ++ ':' :: t) <+: code.toList := by
  rintro ⟨u, htext⟩
  obtain ⟨own, cursor, last, hscans, hcursor, hrun⟩ := exists_scans_of_parse h
  rw [← htext, List.cons_append, List.append_assoc, List.cons_append] at hscans
  obtain ⟨more, rfl, hrest⟩ := hscans.of_word hc hs (by rintro _ ⟨⟩; rfl)
  obtain ⟨more, rfl, -⟩ := hrest.of_token (stands_colon _)
  rw [hname] at hcursor
  have hending : (TokenKind.symbol .colon).Ending := TokenKind.ending rfl
  exact name_stops hending rfl (by simp) (by simp) hcursor (by omega) program last hrun

/-- No program begins with two names. -/
theorem not_prefix_names {name other : String} (h : parse code = .ok program)
    (hc : isWordStart c = true) (hs : s.all isWordPart = true)
    (hname : wordKind (String.ofList (c :: s)) = .ident name)
    (hd : isWordStart d = true) (ht : t.all isWordPart = true)
    (hother : wordKind (String.ofList (d :: t)) = .ident other) {e : Char}
    (he : isWordPart e = false) (u : List Char) :
    ¬ c :: (s ++ ' ' :: d :: (t ++ e :: u)) <+: code.toList := by
  rintro ⟨v, htext⟩
  obtain ⟨own, cursor, last, hscans, hcursor, hrun⟩ := exists_scans_of_parse h
  simp only [← htext, List.cons_append, List.append_assoc] at hscans
  obtain ⟨more, rfl, hrest⟩ := hscans.of_word hc hs (by rintro _ ⟨⟩; rfl)
  have hblank : lexeme ' ' (d :: (t ++ e :: (u ++ v))) = .ok (none, 0) := by
    have htake : (d :: (t ++ e :: (u ++ v))).takeWhile isSpacing = [] :=
      List.takeWhile_cons_of_neg (by rw [isSpacing_of_isWordStart hd]; exact Bool.false_ne_true)
    rw [lexeme, htake]
    rfl
  have hwords : Scans (d :: (t ++ e :: (u ++ v))) more := hrest.of_passed hblank
  obtain ⟨more, rfl, -⟩ := hwords.of_word hd ht (by rintro _ ⟨⟩; exact he)
  rw [hname, hother] at hcursor
  have hending : (TokenKind.ident other).Ending :=
    ⟨rfl, rfl, by simp, rfl, by simp, by simp⟩
  exact name_stops hending rfl (by simp) (by simp) hcursor (by omega) program last hrun

end Texts

end Script

/-! ### Lines of blocks -/

namespace BlockLine

open Doctest.Script (Stmt not_prefix_colon not_prefix_names not_prefix_symbol parse)

/-- **A line that is a script is an output.** -/
theorem ofLine_of_parse {code : String} {program : List Stmt} (h : parse code = .ok program) :
    ofLine code.toList = .statement ⟨.output, code⟩ := by
  have hmarked : ∀ kind ∈ StatementKind.marked, ¬ kind.opening.toList <+: code.toList := by
    intro kind hmem
    cases kind with
    | input => exact not_prefix_symbol h (c := '>') (s := [' ']) (fun _ => rfl) rfl nofun
    | output => exact absurd hmem (by decide)
    | resolve =>
      exact not_prefix_colon h (c := 'R') (s := "esolve".toList) rfl (by decide) rfl [' ']
    | reject => exact not_prefix_colon h (c := 'R') (s := "eject".toList) rfl (by decide) rfl [' ']
    | error => exact not_prefix_colon h (c := 'E') (s := "rror".toList) rfl (by decide) rfl [' ']
    | rejectError =>
      exact not_prefix_names h (c := 'R') (s := "eject".toList) (d := 'e') (t := "rror".toList) rfl
        (by decide) rfl rfl (by decide) rfl (e := ':') rfl [' ']
    | rejectErrorCode =>
      exact not_prefix_names h (c := 'R') (s := "eject".toList) (d := 'e') (t := "rror".toList) rfl
        (by decide) rfl rfl (by decide) rfl (e := ' ') rfl "code: ".toList
    | errorCode =>
      exact not_prefix_names h (c := 'E') (s := "rror".toList) (d := 'c') (t := "ode".toList) rfl
        (by decide) rfl rfl (by decide) rfl (e := ':') rfl [' ']
  have hcontinued : ¬ continuationOpening.toList <+: code.toList :=
    not_prefix_symbol h (c := '.') (s := "..".toList ++ [' ']) (fun _ => rfl) rfl nofun
  rw [ofLine, marked?_eq_none hmarked]
  dsimp only
  rw [isPrefixOf?_eq_none hcontinued, String.ofList_toList]

end BlockLine

end Doctest
