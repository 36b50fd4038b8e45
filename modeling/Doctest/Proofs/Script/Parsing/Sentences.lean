import Doctest.Proofs.Script.Parsing.Brackets

/-!
# Tokens that are statements

Some tokens are read as a statement with a property wherever they stand before a semicolon. What is
known of the expressions and statements in it gives what is known of the whole, and statements with
semicolons behind them are read one after the other, in a block as in a program.
-/

namespace Doctest.Script.Parser

/-- Some tokens are a statement if they stand before a semicolon. -/
structure IsStmt (inBody : Bool) (own : List TokenKind) (result : Stmt → Prop) : Prop where
  head : ∃ k more, own = k :: more ∧ k.separates = false ∧ k ≠ .symbol .rbrace ∧ k ≠ .eof
  reads : ∀ {fuel c rest}, c.kinds = own ++ .symbol .semi :: rest → 10 * own.length + 6 ≤ fuel →
    Reads (.symbol .semi :: rest) result c (statement fuel inBody)

/-- Tokens of statements with a semicolon behind each. -/
def terminated : List (List TokenKind) → List TokenKind
  | [] => []
  | own :: rest => own ++ .symbol .semi :: terminated rest

/-- Tokens of statements between braces. -/
def braced (stmts : List (List TokenKind)) : List TokenKind :=
  .symbol .lbrace :: (terminated stmts ++ [.symbol .rbrace])

/-- Tokens of the statements that are run otherwise, if there are any. -/
def otherwise : Option (List (List TokenKind)) → List TokenKind
  | none => []
  | some stmts => .keyword .kwElse :: braced stmts

variable {own rest : List TokenKind} {result : Stmt → Prop} {c : Cursor} {fuel : Nat}
  {inBody : Bool}

theorem IsStmt.mono {wider : Stmt → Prop} (h : IsStmt inBody own result)
    (hwider : ∀ stmt, result stmt → wider stmt) : IsStmt inBody own wider where
  head := h.head
  reads hc hfuel := (h.reads hc hfuel).mono hwider

/-! ### Statements after each other -/

theorem dropWhile_of_head {k : TokenKind} (hk : k.separates = false) :
    (k :: rest).dropWhile TokenKind.separates = k :: rest :=
  List.dropWhile_cons_of_neg (by rw [hk]; exact Bool.false_ne_true)

theorem IsStmt.dropWhile (h : IsStmt inBody own result) (behind : List TokenKind) :
    (own ++ behind).dropWhile TokenKind.separates = own ++ behind := by
  obtain ⟨k, more, rfl, hk, -⟩ := h.head
  exact dropWhile_of_head hk

/-- What is read behind a statement and its semicolon, whether the statement needs that or not. -/
theorem IsStmt.reads_before {α : Type} {middle : List TokenKind} {whole : α → Prop}
    {f : Stmt → Parser α} (h : IsStmt inBody own result)
    (hc : c.kinds = own ++ .symbol .semi :: middle) (hfuel : 10 * own.length + 6 ≤ fuel)
    (hf : ∀ stmt c', result stmt → c'.kinds.dropWhile TokenKind.separates =
      middle.dropWhile TokenKind.separates → Reads rest whole c' (f stmt)) :
    Reads rest whole c (do
      let stmt ← statement fuel inBody
      if stmt.needsSeparator then Parser.separator
      f stmt) := by
  refine (h.reads hc hfuel).bind fun stmt c hc hstmt => ?_
  dsimp only
  split
  · exact .separator hc fun c hc => hf stmt c hstmt (congrArg _ hc)
  · exact hf stmt c hstmt (by rw [hc]; rfl)

section

variable {ι : Type} {each : ι → List TokenKind} {isStmt : ι → Stmt → Prop} {items : List ι}

theorem dropWhile_terminated (h : ∀ i ∈ items, IsStmt inBody (each i) (isStmt i))
    {k : TokenKind} (hk : k.separates = false) :
    (terminated (items.map each) ++ k :: rest).dropWhile TokenKind.separates =
      terminated (items.map each) ++ k :: rest := by
  cases items with
  | nil => exact dropWhile_of_head hk
  | cons i items =>
    rw [List.map_cons, terminated, List.append_assoc]
    exact (h i List.mem_cons_self).dropWhile _

theorem blockStatements_reads (h : ∀ i ∈ items, IsStmt inBody (each i) (isStmt i))
    (hc : c.kinds.dropWhile TokenKind.separates =
      terminated (items.map each) ++ .symbol .rbrace :: rest)
    (hfuel : 10 * (terminated (items.map each)).length + 7 ≤ fuel) :
    Reads (.symbol .rbrace :: rest) (List.Forall₂ isStmt items) c
      (blockStatements fuel inBody) := by
  induction items generalizing c fuel with
  | nil =>
    obtain ⟨fuel, rfl, -⟩ := exists_level hfuel
    rw [blockStatements]
    refine .skipSeparators fun c' hc' => ?_
    rw [hc] at hc'
    exact .kind hc' (.pure hc' .nil)
  | cons i items ih =>
    obtain ⟨hi, hothers⟩ := List.forall_mem_cons.mp h
    obtain ⟨k, more, hown, hsep, hbrace, heof⟩ := hi.head
    rw [List.map_cons, terminated, List.append_assoc, List.cons_append] at hc
    rw [List.map_cons, terminated, List.length_append, List.length_cons] at hfuel
    obtain ⟨fuel, rfl, hlevels⟩ := exists_level hfuel
    rw [blockStatements]
    refine .skipSeparators fun c' hc' => ?_
    rw [hc] at hc'
    refine .kind (by rw [hc', hown, List.cons_append]) ?_
    split
    · exact absurd rfl hbrace
    · exact absurd rfl heof
    · refine hi.reads_before hc' (by omega) fun stmt c hstmt hc => ?_
      rw [dropWhile_terminated hothers rfl] at hc
      exact (ih hothers hc (by omega)).bind fun stmts c hc hstmts => .pure hc (.cons hstmt hstmts)

theorem block_reads {inside : List TokenKind} (h : ∀ i ∈ items, IsStmt inBody (each i) (isStmt i))
    (hc : c.kinds = .symbol .lbrace :: inside)
    (hinside : inside.dropWhile TokenKind.separates =
      terminated (items.map each) ++ .symbol .rbrace :: rest)
    (hfuel : 10 * (terminated (items.map each)).length + 8 ≤ fuel) :
    Reads rest (List.Forall₂ isStmt items) c (block fuel inBody) := by
  obtain ⟨fuel, rfl, hlevels⟩ := exists_level hfuel
  rw [block]
  refine .expect hc fun _ c hc => ?_
  rw [← hc] at hinside
  refine (blockStatements_reads h hinside hlevels).bind fun stmts c hc hstmts => ?_
  exact .expect hc fun _ c hc => .pure hc hstmts

theorem block_reads_braced (h : ∀ i ∈ items, IsStmt inBody (each i) (isStmt i))
    (hc : c.kinds = braced (items.map each) ++ rest)
    (hfuel : 10 * (braced (items.map each)).length ≤ fuel) :
    Reads rest (List.Forall₂ isStmt items) c (block fuel inBody) := by
  rw [braced, List.cons_append, List.append_assoc] at hc
  rw [braced, List.length_cons, List.length_append, List.length_singleton] at hfuel
  exact block_reads h hc (dropWhile_terminated h rfl) (by omega)

theorem branchBody_reads (h : ∀ i ∈ items, IsStmt inBody (each i) (isStmt i))
    (hc : c.kinds = braced (items.map each) ++ rest)
    (hfuel : 10 * (braced (items.map each)).length + 1 ≤ fuel) :
    Reads rest (List.Forall₂ isStmt items) c (branchBody fuel inBody) := by
  obtain ⟨fuel, rfl, hlevels⟩ := exists_level hfuel
  rw [branchBody]
  exact .sees_of hc (block_reads_braced h hc hlevels)

/-- Statements up to the end are a program. -/
theorem programStatements_reads {levels : Nat}
    (h : ∀ i ∈ items, IsStmt false (each i) (isStmt i))
    (hc : c.kinds.dropWhile TokenKind.separates = terminated (items.map each) ++ [.eof])
    (hfuel : (terminated (items.map each)).length + 1 ≤ fuel)
    (hlevels : 10 * (terminated (items.map each)).length + 6 ≤ levels) :
    Reads [.eof] (List.Forall₂ isStmt items) c (programStatements fuel levels) := by
  induction items generalizing c fuel with
  | nil =>
    obtain ⟨fuel, rfl, -⟩ := exists_level hfuel
    rw [programStatements]
    refine .skipSeparators fun c' hc' => ?_
    rw [hc] at hc'
    exact .kind hc' (.pure hc' .nil)
  | cons i items ih =>
    obtain ⟨hi, hothers⟩ := List.forall_mem_cons.mp h
    obtain ⟨k, more, hown, hsep, hbrace, heof⟩ := hi.head
    rw [List.map_cons, terminated, List.append_assoc, List.cons_append] at hc
    rw [List.map_cons, terminated, List.length_append, List.length_cons] at hfuel hlevels
    obtain ⟨fuel, rfl, hfuel⟩ := exists_level hfuel
    rw [programStatements]
    refine .skipSeparators fun c' hc' => ?_
    rw [hc] at hc'
    refine .kind (by rw [hc', hown, List.cons_append]) ?_
    split
    · exact absurd rfl heof
    · refine hi.reads_before hc' (by omega) fun stmt c hstmt hc => ?_
      rw [dropWhile_terminated hothers rfl] at hc
      refine (ih hothers hc (by omega) (by omega)).bind fun stmts c hc hstmts => ?_
      exact .pure hc (.cons hstmt hstmts)

end

/-! ### Sorts of statements -/

/-- A statement that begins as an expression does, and not with a brace, is one. -/
theorem statement_of_begins {k : TokenKind} (hk : k.begins = true) (hbrace : k ≠ .symbol .lbrace)
    (hc : c.kinds = k :: rest) {after : List TokenKind}
    (h : Reads after result c (expressionStatement fuel inBody)) :
    Reads after result c (statement (fuel + 1) inBody) := by
  rw [statement]
  refine .get (.kind hc ?_)
  split
  · cases hk
  · cases hk
  · cases hk
  · cases hk
  · cases hk
  · cases hk
  · exact absurd rfl hbrace
  · exact h

/-- An expression before anything that ends it is a statement. -/
theorem IsExpr.statement_reads {isValue : Expr → Prop} {k : TokenKind} (h : IsExpr own isValue)
    (hbrace : own.head? ≠ some (.symbol .lbrace)) (hk : k.ends = true)
    (hc : c.kinds = own ++ k :: rest) (hfuel : 10 * own.length + 6 ≤ fuel) :
    Reads (k :: rest) (fun stmt => ∃ e span, isValue e ∧ stmt = .expr e span) c
      (statement fuel inBody) := by
  obtain ⟨first, more, hown, hbegins⟩ := h.head
  obtain ⟨fuel, rfl, hlevels⟩ := exists_level hfuel
  obtain ⟨fuel, rfl, hinner⟩ := exists_level hlevels
  have hfirst : c.kinds = first :: (more ++ k :: rest) := by rw [hc, hown, List.cons_append]
  have hne : first ≠ .symbol .lbrace := by
    rintro rfl
    exact hbrace (by rw [hown, List.head?_cons])
  refine statement_of_begins hbegins hne hfirst ?_
  rw [expressionStatement]
  exact (h.reads hk hc hinner).bind fun e c hc he => .pure hc ⟨e, _, he, rfl⟩

theorem IsExpr.stmt {isValue : Expr → Prop} (h : IsExpr own isValue)
    (hbrace : own.head? ≠ some (.symbol .lbrace)) :
    IsStmt inBody own fun stmt => ∃ e span, isValue e ∧ stmt = .expr e span where
  head := by
    obtain ⟨k, more, rfl, hbegins⟩ := h.head
    refine ⟨k, more, rfl, ?_, TokenKind.ne_of_begins hbegins rfl,
      TokenKind.ne_of_begins hbegins rfl⟩
    exact decide_eq_false fun heq => heq.elim (TokenKind.ne_of_begins hbegins rfl)
      (TokenKind.ne_of_begins hbegins rfl)
  reads hc hfuel := h.statement_reads hbrace rfl hc hfuel

/-- An expression by itself is a program. -/
theorem IsExpr.program_reads {isValue : Expr → Prop} {levels : Nat} (h : IsExpr own isValue)
    (hbrace : own.head? ≠ some (.symbol .lbrace)) (hc : c.kinds = own ++ [.eof])
    (hfuel : 2 ≤ fuel) (hlevels : 10 * own.length + 6 ≤ levels) :
    Reads [.eof] (fun program => ∃ e span, isValue e ∧ program = [.expr e span]) c
      (programStatements fuel levels) := by
  have hstmt : IsStmt false own fun stmt => ∃ e span, isValue e ∧ stmt = .expr e span :=
    h.stmt hbrace
  obtain ⟨k, more, hown, hsep, -, heof⟩ := hstmt.head
  obtain ⟨fuel, rfl⟩ : ∃ n, fuel = n + 2 := ⟨fuel - 2, by omega⟩
  rw [programStatements]
  refine .skipSeparators fun c' hc' => ?_
  rw [hc, hown, List.cons_append, dropWhile_of_head hsep] at hc'
  refine .kind hc' ?_
  split
  · exact absurd rfl heof
  rw [← List.cons_append, ← hown] at hc'
  refine (h.statement_reads hbrace rfl hc' hlevels).bind fun stmt c hc hstmt => ?_
  obtain ⟨e, span, he, rfl⟩ := hstmt
  have hneeds : (Stmt.expr e span).needsSeparator = true := rfl
  dsimp only
  rw [hneeds, if_pos rfl, Parser.separator, bind_assoc]
  refine .kind hc ?_
  dsimp only
  rw [pure_bind]
  have hend : Reads [.eof] (· = []) c (programStatements (fuel + 1) levels) := by
    rw [programStatements]
    refine .skipSeparators fun c' hc' => ?_
    rw [hc] at hc'
    exact .kind hc' (.pure hc' rfl)
  refine hend.bind fun stmts c hc hstmts => ?_
  exact .pure hc ⟨e, span, he, by rw [hstmts]⟩

/-- A word that declares is followed by a declaration. -/
theorem declaration_reads {word : Keyword} {kind : DeclKind} {after : List TokenKind}
    (hword : (TokenKind.keyword word).declaration? = some kind)
    (hc : c.kinds = .keyword word :: rest)
    (h : Reads after result c (declaration fuel inBody)) :
    Reads after result c (statement (fuel + 1) inBody) := by
  rw [statement]
  refine .get (.kind hc ?_)
  cases word with
  | kwLet | kwConst | kwVar => exact h
  | _ => cases hword

theorem isStmt_declare {word : Keyword} {kind : DeclKind} {name : String} {init : List TokenKind}
    {isInit : Expr → Prop} (hword : (TokenKind.keyword word).declaration? = some kind)
    (h : IsExpr init isInit) :
    IsStmt inBody (.keyword word :: .ident name :: .symbol .assign :: init)
      fun stmt => ∃ e span, isInit e ∧ stmt = .declare kind name (some e) span where
  head := ⟨_, _, rfl, rfl, nofun, nofun⟩
  reads hc hfuel := by
    rw [List.length_cons, List.length_cons, List.length_cons] at hfuel
    obtain ⟨fuel, rfl, hlevels⟩ := exists_level hfuel
    obtain ⟨fuel, rfl, hinner⟩ := exists_level hlevels
    refine declaration_reads hword hc ?_
    rw [declaration]
    refine .next hc nofun fun word c hc => ?_
    dsimp only
    rw [hword, Option.getD_some]
    refine (Reads.identifier hc).bind fun found c hc hfound => ?_
    refine .accept_of hc fun c hc => ?_
    refine .skipNewlines hc (h.head?_ne _ rfl) fun c hc => ?_
    refine (h.reads rfl hc (by omega)).bind fun e c hc he => .spanFrom fun span => ?_
    exact .pure hc ⟨e, span, he, by rw [hfound]⟩

/-- Constants do not go without a value. -/
theorem isStmt_declare_bare {word : Keyword} {kind : DeclKind} {name : String}
    (hword : (TokenKind.keyword word).declaration? = some kind) (hkind : kind ≠ .byConst) :
    IsStmt inBody [.keyword word, .ident name]
      fun stmt => ∃ span, stmt = .declare kind name none span where
  head := ⟨_, _, rfl, rfl, nofun, nofun⟩
  reads hc hfuel := by
    obtain ⟨fuel, rfl, hlevels⟩ := exists_level hfuel
    obtain ⟨fuel, rfl, -⟩ := exists_level (Nat.le_trans (Nat.le_add_left 5 _) hlevels)
    refine declaration_reads hword hc ?_
    rw [declaration]
    refine .next hc nofun fun word c hc => ?_
    dsimp only
    rw [hword, Option.getD_some]
    refine (Reads.identifier hc).bind fun found c hc hfound => ?_
    refine .accept_of_ne hc nofun ?_
    rw [if_neg hkind]
    exact .spanFrom fun span => .pure hc ⟨span, by rw [hfound]⟩

theorem isStmt_throw {value : List TokenKind} {isValue : Expr → Prop} (h : IsExpr value isValue) :
    IsStmt inBody (.keyword .kwThrow :: value)
      fun stmt => ∃ e span, isValue e ∧ stmt = .throwing e span where
  head := ⟨_, _, rfl, rfl, nofun, nofun⟩
  reads := by
    intro fuel c rest hc hfuel
    obtain ⟨k, more, hvalue, hbegins⟩ := h.head
    rw [List.length_cons] at hfuel
    obtain ⟨fuel, rfl, hlevels⟩ := exists_level hfuel
    rw [statement]
    refine .get (.kind hc (.advance hc nofun fun c hc => ?_))
    have hfirst : c.kinds = k :: (more ++ .symbol .semi :: rest) := by
      rw [hc, hvalue]
      rfl
    refine .kind hfirst ?_
    split
    · cases hbegins
    · cases hbegins
    · cases hbegins
    · refine (h.reads rfl hc (by omega)).bind fun e c hc he => ?_
      exact .pure hc ⟨e, _, he, rfl⟩

theorem isStmt_return {value : List TokenKind} {isValue : Expr → Prop} (h : IsExpr value isValue) :
    IsStmt true (.keyword .kwReturn :: value)
      fun stmt => ∃ e span, isValue e ∧ stmt = .returning (some e) span where
  head := ⟨_, _, rfl, rfl, nofun, nofun⟩
  reads := by
    intro fuel c rest hc hfuel
    obtain ⟨k, more, hvalue, hbegins⟩ := h.head
    rw [List.length_cons] at hfuel
    obtain ⟨fuel, rfl, hlevels⟩ := exists_level hfuel
    rw [statement]
    refine .get (.kind hc ?_)
    dsimp only
    rw [Bool.not_true, if_neg Bool.false_ne_true]
    refine .advance hc nofun fun c hc => ?_
    have hfirst : c.kinds = k :: (more ++ .symbol .semi :: rest) := by
      rw [hc, hvalue]
      rfl
    refine .kind hfirst ?_
    split
    · cases hbegins
    · cases hbegins
    · cases hbegins
    · cases hbegins
    · refine (h.reads rfl hc (by omega)).bind fun e c hc he => ?_
      exact .pure hc ⟨e, _, he, rfl⟩

theorem isStmt_return_bare :
    IsStmt true [.keyword .kwReturn] fun stmt => ∃ span, stmt = .returning none span where
  head := ⟨_, _, rfl, rfl, nofun, nofun⟩
  reads hc hfuel := by
    obtain ⟨fuel, rfl, -⟩ := exists_level hfuel
    rw [statement]
    refine .get (.kind hc ?_)
    dsimp only
    rw [Bool.not_true, if_neg Bool.false_ne_true]
    refine .advance hc nofun fun c hc => ?_
    exact .kind hc (.pure hc ⟨_, rfl⟩)

/-! ### Statements in statements -/

/-- No object is taken to stand behind a brace with a semicolon. -/
theorem startsObject_eq_false (hc : c.kinds = .symbol .lbrace :: .symbol .semi :: rest) :
    c.startsObject = false := by
  obtain ⟨inside, hinside, hadvance⟩ :=
    Cursor.exists_of_kindAt_zero (Cursor.kindAt_zero_of_kinds hc) nofun
  obtain rfl := List.tail_eq_of_cons_eq (hc.symm.trans hinside)
  have hpast : c.advance.kindAt c.advance.newlines = .symbol .semi := by
    rw [← Nat.add_zero c.advance.newlines, Cursor.kindAt_newlines_add]
    exact Cursor.kindAt_zero_of_kinds (Cursor.kinds_pastNewlines hadvance nofun)
  rw [Cursor.startsObject, hpast]

section

variable {ι : Type} {each : ι → List TokenKind} {isStmt : ι → Stmt → Prop} {items : List ι}

/-- A block, with a semicolon at its start so that it is not read as an object. -/
theorem isStmt_block (h : ∀ i ∈ items, IsStmt inBody (each i) (isStmt i)) :
    IsStmt inBody (.symbol .lbrace :: .symbol .semi ::
        (terminated (items.map each) ++ [.symbol .rbrace]))
      fun stmt => ∃ stmts span, List.Forall₂ isStmt items stmts ∧ stmt = .block stmts span where
  head := ⟨_, _, rfl, rfl, nofun, nofun⟩
  reads := by
    intro fuel c rest hc hfuel
    rw [List.cons_append, List.cons_append, List.append_assoc] at hc
    rw [List.length_cons, List.length_cons, List.length_append] at hfuel
    obtain ⟨fuel, rfl, hlevels⟩ := exists_level hfuel
    rw [statement]
    refine .get (.kind hc (.get ?_))
    rw [startsObject_eq_false hc, if_neg Bool.false_ne_true]
    refine (block_reads h hc (dropWhile_terminated h rfl) (by omega)).bind
      fun stmts c hc hstmts => .spanFrom fun span => ?_
    exact .pure hc ⟨stmts, span, hstmts, rfl⟩

/-- A statement with branches between braces. -/
theorem isStmt_branch {test : List TokenKind} {isTest : Expr → Prop} {no : Option (List ι)}
    (htest : IsExpr test isTest) (hyes : ∀ i ∈ items, IsStmt inBody (each i) (isStmt i))
    (hno : ∀ others, no = some others → ∀ i ∈ others, IsStmt inBody (each i) (isStmt i)) :
    IsStmt inBody (.keyword .kwIf :: .symbol .lparen :: (test ++ .symbol .rparen ::
        (braced (items.map each) ++ otherwise (no.map (List.map each)))))
      fun stmt => ∃ a yes others span, isTest a ∧ List.Forall₂ isStmt items yes ∧
        Option.Rel (List.Forall₂ isStmt) no others ∧ stmt = .branch a yes others span where
  head := ⟨_, _, rfl, rfl, nofun, nofun⟩
  reads := by
    intro fuel c rest hc hfuel
    rw [List.cons_append, List.cons_append, List.append_assoc, List.cons_append,
      List.append_assoc] at hc
    rw [List.length_cons, List.length_cons, List.length_append, List.length_cons,
      List.length_append] at hfuel
    obtain ⟨fuel, rfl, hlevels⟩ := exists_level hfuel
    obtain ⟨fuel, rfl, hinner⟩ := exists_level hlevels
    rw [statement]
    refine .get (.kind hc ?_)
    dsimp only
    rw [conditionalStatement]
    refine .next hc nofun fun _ c hc => ?_
    refine .expect hc fun _ c hc => ?_
    refine .skipNewlines hc (htest.head?_ne _ rfl) fun c hc => ?_
    refine (htest.reads rfl hc (by omega)).bind fun a c hc ha => ?_
    refine .skipNewlines hc nofun fun c hc => ?_
    refine .expect hc fun _ c hc => ?_
    refine .skipNewlines hc nofun fun c hc => ?_
    refine (branchBody_reads hyes hc (by omega)).bind fun yes c hc hstmts => .get ?_
    rw [Cursor.kindPastNewlines_eq]
    cases no with
    | none =>
      have hpast := Cursor.kinds_pastNewlines hc nofun
      rw [Cursor.kindAt_zero_of_kinds hpast, if_neg nofun]
      exact .spanFrom fun span => .pure hc ⟨a, yes, none, span, ha, hstmts, .none, rfl⟩
    | some others =>
      have hpast := Cursor.kinds_pastNewlines hc nofun
      rw [Cursor.kindAt_zero_of_kinds hpast, if_pos rfl]
      refine .skipNewlines hc nofun fun c hc => ?_
      refine .advance hc nofun fun c hc => ?_
      refine .skipNewlines hc nofun fun c hc => ?_
      refine .kind hc ?_
      rw [if_neg nofun]
      refine (branchBody_reads (hno others rfl) hc ?_).bind fun found c hc hfound => ?_
      · rw [Option.map_some, otherwise, List.length_cons] at hinner
        omega
      · refine .spanFrom fun span => ?_
        exact .pure hc ⟨a, yes, some found, span, ha, hstmts, .some hfound, rfl⟩

end

end Doctest.Script.Parser
