import Doctest.Proofs.Script.Parsing.Results

/-!
# Where a program may return

A statement returns if a `return` stands in it that belongs to no function within it. In the body of
a function statements may return. Elsewhere the parser takes no `return`, so that no statement of a
program returns.
-/

namespace Doctest.Script

mutual

/-- Whether a statement that returns stands in a statement; functions in it are passed over. -/
def Stmt.returns : Stmt → Bool
  | .expr .. | .declare .. | .throwing .. => false
  | .returning .. => true
  | .branch _ yes none _ => Stmt.anyReturns yes
  | .branch _ yes (some no) _ => Stmt.anyReturns yes || Stmt.anyReturns no
  | .block stmts _ => Stmt.anyReturns stmts

/-- Whether a statement that returns stands in some statements. -/
def Stmt.anyReturns : List Stmt → Bool
  | [] => false
  | stmt :: rest => stmt.returns || Stmt.anyReturns rest

end

theorem Stmt.anyReturns_cons {stmt : Stmt} {rest : List Stmt} (hstmt : stmt.returns = false)
    (hrest : Stmt.anyReturns rest = false) : Stmt.anyReturns (stmt :: rest) = false := by
  rw [Stmt.anyReturns, hstmt, hrest, Bool.or_self]

/-! ### Statements outside of functions -/

/-- With so many levels to descend, no statement outside of functions returns. -/
structure NoStrayReturns (fuel : Nat) : Prop where
  statement : (statement fuel false).Gives fun stmt => stmt.returns = false
  expressionStatement : (expressionStatement fuel false).Gives fun stmt => stmt.returns = false
  declaration : (declaration fuel false).Gives fun stmt => stmt.returns = false
  conditionalStatement : (conditionalStatement fuel false).Gives fun stmt => stmt.returns = false
  branchBody : (branchBody fuel false).Gives fun stmts => Stmt.anyReturns stmts = false
  block : (block fuel false).Gives fun stmts => Stmt.anyReturns stmts = false
  blockStatements : (blockStatements fuel false).Gives fun stmts => Stmt.anyReturns stmts = false

namespace NoStrayReturns

variable {fuel : Nat} (ih : NoStrayReturns fuel)
include ih

theorem succ_statement :
    (Script.statement (fuel + 1) false).Gives fun stmt => stmt.returns = false := by
  unfold Script.statement
  refine .seq fun cursor => .seq fun kind => ?_
  split
  · exact ih.declaration
  · exact ih.declaration
  · exact ih.declaration
  · refine .seq fun _ => .seq fun kind => ?_
    split
    · exact .seq fun _ => .failAt _ _
    · exact .seq fun _ => .failAt _ _
    · exact .seq fun _ => .failAt _ _
    · exact .seq fun _ => .pure rfl
  -- A `return` is refused, since it stands in no body.
  · exact .failAt _ _
  · exact ih.conditionalStatement
  · refine .seq fun _ => ?_
    split
    · exact ih.expressionStatement
    · exact ih.block.bind fun stmts hstmts => .seq fun _ => .pure hstmts
  · exact ih.expressionStatement

omit ih in
theorem succ_declaration :
    (Script.declaration (fuel + 1) false).Gives fun stmt => stmt.returns = false := by
  unfold Script.declaration
  refine .seq fun _ => .seq fun _ => .seq fun assigns => ?_
  split
  · exact .seq fun _ => .seq fun _ => .seq fun _ => .pure rfl
  · split
    · exact .failAt _ _
    · exact .seq fun _ => .pure rfl

theorem succ_conditionalStatement :
    (Script.conditionalStatement (fuel + 1) false).Gives fun stmt => stmt.returns = false := by
  unfold Script.conditionalStatement
  refine .seq fun word => .seq fun _ => .seq fun _ => .seq fun test => .seq fun _ =>
    .seq fun _ => .seq fun _ => ?_
  refine ih.branchBody.bind fun yes hyes => .seq fun _ => ?_
  split
  · refine .seq fun _ => .seq fun _ => .seq fun _ => .seq fun kind => ?_
    have hbranch (no : List Stmt) (hno : Stmt.anyReturns no = false) (span : Span) :
        (Stmt.branch test yes (some no) span).returns = false := by
      rw [Stmt.returns, hyes, hno, Bool.or_self]
    dsimp only
    split
    · refine ih.conditionalStatement.bind fun stmt hstmt => ?_
      have hno : Stmt.anyReturns [stmt] = false := Stmt.anyReturns_cons hstmt rfl
      exact .bind (.pure hno) fun no hno => .seq fun _ => .pure (hbranch no hno _)
    · exact ih.branchBody.bind fun no hno => .seq fun _ => .pure (hbranch no hno _)
  · exact .seq fun _ => .pure hyes

theorem succ_branchBody :
    (Script.branchBody (fuel + 1) false).Gives fun stmts => Stmt.anyReturns stmts = false := by
  unfold Script.branchBody
  refine .seq fun braced => ?_
  split
  · exact ih.block
  · exact ih.statement.bind fun stmt hstmt => .pure (Stmt.anyReturns_cons hstmt rfl)

theorem succ_blockStatements :
    (Script.blockStatements (fuel + 1) false).Gives
      fun stmts => Stmt.anyReturns stmts = false := by
  unfold Script.blockStatements
  refine .seq fun _ => .seq fun kind => ?_
  split
  · exact .pure rfl
  · exact .failHere
  · refine ih.statement.bind fun stmt hstmt => ?_
    have hrest : Parser.Gives (fun stmts => Stmt.anyReturns stmts = false)
        (do return stmt :: (← Script.blockStatements fuel false)) :=
      ih.blockStatements.bind fun rest hrest => .pure (Stmt.anyReturns_cons hstmt hrest)
    dsimp only
    split
    · exact .seq fun _ => hrest
    · exact hrest

end NoStrayReturns

theorem noStrayReturns (fuel : Nat) : NoStrayReturns fuel := by
  induction fuel with
  | zero =>
    exact ⟨.failDeep, .failDeep, .failDeep, .failDeep, .failDeep, .failDeep, .failDeep⟩
  | succ fuel ih =>
    exact {
      statement := ih.succ_statement
      expressionStatement := by
        unfold Script.expressionStatement
        exact .seq fun _ => .pure rfl
      declaration := NoStrayReturns.succ_declaration
      conditionalStatement := ih.succ_conditionalStatement
      branchBody := ih.succ_branchBody
      block := by
        unfold Script.block
        exact .seq fun _ => ih.blockStatements.bind fun stmts hstmts => .seq fun _ => .pure hstmts
      blockStatements := ih.succ_blockStatements }

theorem programStatements_gives (fuel levels : Nat) :
    (programStatements fuel levels).Gives fun stmts => Stmt.anyReturns stmts = false := by
  induction fuel with
  | zero => exact .failDeep
  | succ fuel ih =>
    unfold programStatements
    refine .seq fun _ => .seq fun kind => ?_
    split
    · exact .pure rfl
    · refine (noStrayReturns levels).statement.bind fun stmt hstmt => ?_
      have hrest : Parser.Gives (fun stmts => Stmt.anyReturns stmts = false)
          (do return stmt :: (← programStatements fuel levels)) :=
        ih.bind fun rest hrest => .pure (Stmt.anyReturns_cons hstmt hrest)
      dsimp only
      split
      · exact .seq fun _ => hrest
      · exact hrest

/-- What a parser gives for the tokens of a source text it gives from where it stands then. -/
theorem exists_of_parse {source : String} {program : List Stmt}
    (h : parse source = .ok program) :
    ∃ found last, tokens source = .ok found ∧
      programStatements (found.length + 1) (10 * found.length + 10) ⟨⟨0, 0⟩, found⟩ =
        .ok (program, last) := by
  rw [parse] at h
  cases htokens : tokens source with
  | error fault =>
    rw [htokens] at h
    cases h
  | ok found =>
    rw [htokens] at h
    change (fun result : List Stmt × Cursor => result.1) <$>
      programStatements (found.length + 1) (10 * found.length + 10) ⟨⟨0, 0⟩, found⟩ =
        .ok program at h
    refine ⟨found, ?_⟩
    cases hrun : programStatements (found.length + 1) (10 * found.length + 10)
        ⟨⟨0, 0⟩, found⟩ with
    | error fault =>
      rw [hrun] at h
      cases h
    | ok result =>
      rw [hrun] at h
      cases h
      exact ⟨result.2, rfl, rfl⟩

/-- **No program returns.** What the parser takes returns within the bodies of functions only. -/
theorem anyReturns_of_parse {source : String} {program : List Stmt}
    (h : parse source = .ok program) : Stmt.anyReturns program = false := by
  obtain ⟨found, last, -, hrun⟩ := exists_of_parse h
  exact programStatements_gives _ _ _ _ _ hrun

end Doctest.Script
