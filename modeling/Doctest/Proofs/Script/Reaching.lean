import Doctest.Proofs.Script.Keeping.Rules
import Doctest.Script.Evaluate

/-!
# The statements that a run reaches

Statements are run one after the other as long as none of them stops the run, and a branch or a
block goes on with the statements in it. What a run ends with, it ends with because of a statement
that it reached.
-/

namespace Doctest.Script

variable {invoke : Invoke} {scope within inner : Scope} {start middle last : Machine}

/-- A statement goes on with other statements, from some machine on: a branch that is taken, or a
block. -/
inductive Opens (invoke : Invoke) (scope : Scope) (start : Machine) :
    Stmt → List Stmt → Machine → Prop
  | yes {test : Expr} {yes : List Stmt} {no : Option (List Stmt)} {span : Span} {a : Value}
    {middle : Machine} (htest : evalExpr invoke scope test start = (.ok a, middle))
    (htruthy : a.isTruthy = true) : Opens invoke scope start (.branch test yes no span) yes middle
  | no {test : Expr} {yes no : List Stmt} {span : Span} {a : Value} {middle : Machine}
    (htest : evalExpr invoke scope test start = (.ok a, middle))
    (htruthy : ¬ a.isTruthy = true) :
    Opens invoke scope start (.branch test yes (some no) span) no middle
  | block {stmts : List Stmt} {span : Span} :
    Opens invoke scope start (.block stmts span) stmts start

/-- A run of statements in a scope reaches a statement, in the scope in which that is run and on the
machine on which it is run. -/
inductive Reaches (invoke : Invoke) :
    Scope → List Stmt → Machine → Scope → Stmt → Machine → Prop
  | here {scope : Scope} {stmt : Stmt} {rest : List Stmt} {start : Machine} :
    Reaches invoke scope (stmt :: rest) start scope stmt start
  | later {scope inner : Scope} {stmt target : Stmt} {rest : List Stmt}
    {start middle last : Machine} {found : Option Value}
    (hfirst : execStmt invoke scope stmt start = (.ok found, middle))
    (h : Reaches invoke scope rest middle inner target last) :
    Reaches invoke scope (stmt :: rest) start inner target last
  | within {scope within inner : Scope} {stmt target : Stmt} {rest stmts : List Stmt}
    {start middle opened last : Machine} (hopens : Opens invoke scope start stmt stmts middle)
    (hnested : scope.nested middle = (.ok within, opened))
    (h : Reaches invoke within stmts opened inner target last) :
    Reaches invoke scope (stmt :: rest) start inner target last

/-! ### Runs of statements -/

theorem Scope.exists_nested (scope : Scope) (start : Machine) :
    ∃ within opened, scope.nested start = (.ok within, opened) :=
  ⟨_, _, rfl⟩

theorem execStmt_branch_apply (test : Expr) (yes : List Stmt) (no : Option (List Stmt))
    (span : Span) :
    execStmt invoke scope (.branch test yes no span) start =
      match evalExpr invoke scope test start with
      | (.ok a, middle) =>
        (if a.isTruthy then do execStmts invoke (← scope.nested) yes
        else
          match no with
          | some no => do execStmts invoke (← scope.nested) no
          | none => return none : Eval (Option Value)) middle
      | (.error signal, middle) => (.error signal, middle) := by
  cases no <;> rw [execStmt, Eval.bind_apply] <;>
    rcases evalExpr invoke scope test start with ⟨_ | _, _⟩ <;> rfl

/-- A statement that opens others ends as they do. -/
theorem Opens.execStmt_eq {stmt : Stmt} {stmts : List Stmt} {opened : Machine}
    (h : Opens invoke scope start stmt stmts middle)
    (hnested : scope.nested middle = (.ok within, opened)) :
    execStmt invoke scope stmt start = execStmts invoke within stmts opened := by
  have hopened : (scope.nested >>= fun within => execStmts invoke within stmts) middle =
      execStmts invoke within stmts opened := by
    rw [Eval.bind_apply, hnested]
  cases h with
  | yes htest htruthy =>
    rw [execStmt_branch_apply, htest]
    dsimp only
    rw [if_pos htruthy]
    exact hopened
  | no htest htruthy =>
    rw [execStmt_branch_apply, htest]
    dsimp only
    rw [if_neg htruthy]
    exact hopened
  | block =>
    rw [execStmt]
    exact hopened

theorem execStmts_of_error {stmt : Stmt} {rest : List Stmt} {signal : Signal}
    (h : execStmt invoke scope stmt start = (.error signal, last)) :
    execStmts invoke scope (stmt :: rest) start = (.error signal, last) := by
  rw [execStmts, Eval.bind_apply, h]

theorem execStmts_of_ok {stmt : Stmt} {rest : List Stmt} {first : Option Value}
    (h : execStmt invoke scope stmt start = (.ok first, middle)) :
    execStmts invoke scope (stmt :: rest) start =
      match execStmts invoke scope rest middle with
      | (.ok found, last) => (.ok (found.or first), last)
      | (.error signal, last) => (.error signal, last) := by
  rw [execStmts, Eval.bind_apply, h]
  dsimp only
  rw [Eval.bind_apply]
  rcases execStmts invoke scope rest middle with ⟨signal | found, last⟩ <;> rfl

/-- Where statements are not stopped after the first one, the result is the last one that there
is. -/
theorem exists_or_of_execStmts {stmt : Stmt} {rest : List Stmt} {first found : Option Value}
    (h : execStmt invoke scope stmt start = (.ok first, middle))
    (hrun : execStmts invoke scope (stmt :: rest) start = (.ok found, last)) :
    ∃ result, execStmts invoke scope rest middle = (.ok result, last) ∧
      found = result.or first := by
  rw [execStmts_of_ok h] at hrun
  rcases hrest : execStmts invoke scope rest middle with ⟨signal | result, final⟩ <;>
    rw [hrest] at hrun <;> cases hrun
  exact ⟨result, rfl, rfl⟩

/-- Statements and others after them: the others run unless the first ones are stopped, and give the
result if they have one. -/
theorem execStmts_append (stmts more : List Stmt) :
    execStmts invoke scope (stmts ++ more) = do
      let first ← execStmts invoke scope stmts
      return (← execStmts invoke scope more).or first := by
  funext start
  induction stmts generalizing start with
  | nil =>
    rw [List.nil_append, execStmts, pure_bind]
    rw [Eval.bind_apply]
    rcases execStmts invoke scope more start with ⟨signal | found, last⟩
    · rfl
    · dsimp only
      rw [Option.or_none]
      rfl
  | cons stmt rest ih =>
    rw [List.cons_append, Eval.bind_apply]
    rcases hfirst : execStmt invoke scope stmt start with ⟨signal | first, middle⟩
    · rw [execStmts_of_error hfirst, execStmts_of_error hfirst]
    · rw [execStmts_of_ok hfirst, execStmts_of_ok hfirst, ih, Eval.bind_apply]
      rcases execStmts invoke scope rest middle with ⟨signal | found, last⟩
      · rfl
      · dsimp only
        rw [Eval.bind_apply, Eval.bind_apply]
        rcases execStmts invoke scope more last with ⟨signal | result, final⟩
        · rfl
        · exact congrArg (fun value => (Except.ok value, final)) Option.or_assoc

/-- What is reached in a statement is reached in it and others. -/
theorem Reaches.append {stmts : List Stmt} {target : Stmt}
    (h : Reaches invoke scope stmts start inner target middle) (more : List Stmt) :
    Reaches invoke scope (stmts ++ more) start inner target middle := by
  induction h with
  | here => exact .here
  | later hfirst _ ih => exact .later hfirst ih
  | within hopens hnested h _ => exact .within hopens hnested h

/-! ### Statements that decide how a run ends -/

/-- A run is stopped by a statement that it reaches and that stops. -/
theorem Reaches.execStmts_error {stmts : List Stmt} {target : Stmt} {signal : Signal}
    (h : Reaches invoke scope stmts start inner target middle)
    (hstops : execStmt invoke inner target middle = (.error signal, last)) :
    execStmts invoke scope stmts start = (.error signal, last) := by
  induction h with
  | here => exact execStmts_of_error hstops
  | later hfirst _ ih => rw [execStmts_of_ok hfirst, ih hstops]
  | within hopens hnested _ ih =>
    exact execStmts_of_error ((hopens.execStmt_eq hnested).trans (ih hstops))

/-- Where a run is not stopped, no statement that it reaches stops, and there is a result if one of
them has one. -/
theorem Reaches.exists_of_execStmts {stmts : List Stmt} {target : Stmt} {found : Option Value}
    (h : Reaches invoke scope stmts start inner target middle)
    (hrun : execStmts invoke scope stmts start = (.ok found, last)) :
    ∃ own after, execStmt invoke inner target middle = (.ok own, after) ∧
      (own.isSome = true → found.isSome = true) := by
  induction h generalizing found last with
  | @here scope stmt rest start =>
    rcases hfirst : execStmt invoke scope stmt start with ⟨signal | first, after⟩
    · rw [execStmts_of_error hfirst] at hrun
      cases hrun
    · refine ⟨first, after, rfl, fun hsome => ?_⟩
      obtain ⟨result, -, rfl⟩ := exists_or_of_execStmts hfirst hrun
      rw [Option.isSome_or, hsome, Bool.or_true]
  | @later scope inner stmt target rest start middle last' first hfirst _ ih =>
    obtain ⟨result, hrest, rfl⟩ := exists_or_of_execStmts hfirst hrun
    obtain ⟨own, after, hown, hsome⟩ := ih hrest
    refine ⟨own, after, hown, fun h => ?_⟩
    rw [Option.isSome_or, hsome h, Bool.true_or]
  | @within scope within inner stmt target rest stmts start middle opened last' hopens hnested
      _ ih =>
    have hstmt := hopens.execStmt_eq hnested
    rcases hinner : execStmts invoke within stmts opened with ⟨signal | first, after⟩
    · rw [execStmts_of_error (hstmt.trans hinner)] at hrun
      cases hrun
    · obtain ⟨own, final, hown, hsome⟩ := ih hinner
      refine ⟨own, final, hown, fun h => ?_⟩
      obtain ⟨result, -, rfl⟩ := exists_or_of_execStmts (hstmt.trans hinner) hrun
      rw [Option.isSome_or, hsome h, Bool.or_true]

/-- A statement that goes on with no others. -/
def Stmt.isPlain : Stmt → Bool
  | .branch .. | .block .. => false
  | .expr .. | .declare .. | .throwing .. | .returning .. => true

/-- A way for a run to end that comes from a plain statement: it is not that of nothing being run,
statements one after the other end in it because one of them does, and conditions do not. -/
structure Decided (invoke : Invoke) (ends : Except Signal (Option Value) × Machine → Prop) :
    Prop where
  nothing : ∀ last, ¬ ends (.ok none, last)
  or : ∀ {first found : Option Value} {middle last : Machine}, ends (.ok (found.or first), last) →
    ends (.ok first, middle) ∨ ends (.ok found, last)
  test : ∀ {scope : Scope} {test : Expr} {start last : Machine} {signal : Signal},
    evalExpr invoke scope test start = (.error signal, last) → ¬ ends (.error signal, last)

section

variable {ends : Except Signal (Option Value) × Machine → Prop} (hends : Decided invoke ends)
include hends

mutual

theorem Decided.exists_reached_in (scope : Scope) : (stmt : Stmt) → (start : Machine) →
    ends (execStmt invoke scope stmt start) →
    ∃ inner target middle, Reaches invoke scope [stmt] start inner target middle ∧
      target.isPlain = true ∧ ends (execStmt invoke inner target middle)
  | .expr .., start, h | .declare .., start, h | .throwing .., start, h
  | .returning .., start, h => ⟨scope, _, start, .here, rfl, h⟩
  | .block stmts span, start, h => by
    obtain ⟨within, opened, hnested⟩ := scope.exists_nested start
    rw [Opens.block.execStmt_eq hnested] at h
    obtain ⟨inner, target, middle, hreach, htarget⟩ := Decided.exists_reached within stmts opened h
    exact ⟨inner, target, middle, .within .block hnested hreach, htarget⟩
  | .branch test yes no span, start, h => by
    rcases htest : evalExpr invoke scope test start with ⟨signal | a, tested⟩
    · have hstmt : execStmt invoke scope (.branch test yes no span) start =
          (.error signal, tested) := by
        rw [execStmt_branch_apply, htest]
      exact absurd (hstmt ▸ h) (hends.test htest)
    obtain ⟨within, opened, hnested⟩ := scope.exists_nested tested
    by_cases htruthy : a.isTruthy = true
    · have hopens : Opens invoke scope start (.branch test yes no span) yes tested :=
        .yes htest htruthy
      rw [hopens.execStmt_eq hnested] at h
      obtain ⟨inner, target, middle, hreach, htarget⟩ := Decided.exists_reached within yes opened h
      exact ⟨inner, target, middle, .within hopens hnested hreach, htarget⟩
    · cases no with
      | none =>
        have hstmt : execStmt invoke scope (.branch test yes none span) start =
            (.ok none, tested) := by
          rw [execStmt_branch_apply, htest]
          dsimp only
          rw [if_neg htruthy]
          rfl
        exact absurd (hstmt ▸ h) (hends.nothing tested)
      | some no =>
        have hopens : Opens invoke scope start (.branch test yes (some no) span) no tested :=
          .no htest htruthy
        rw [hopens.execStmt_eq hnested] at h
        obtain ⟨inner, target, middle, hreach, htarget⟩ := Decided.exists_reached within no opened h
        exact ⟨inner, target, middle, .within hopens hnested hreach, htarget⟩

theorem Decided.exists_reached (scope : Scope) : (stmts : List Stmt) → (start : Machine) →
    ends (execStmts invoke scope stmts start) →
    ∃ inner target middle, Reaches invoke scope stmts start inner target middle ∧
      target.isPlain = true ∧ ends (execStmt invoke inner target middle)
  | [], start, h => by
    rw [execStmts] at h
    exact absurd h (hends.nothing start)
  | stmt :: rest, start, h => by
    have hin := Decided.exists_reached_in scope stmt start
    rcases hfirst : execStmt invoke scope stmt start with ⟨signal | first, after⟩
    · rw [execStmts_of_error hfirst] at h
      obtain ⟨inner, target, middle, hreach, htarget⟩ := hin (hfirst ▸ h)
      exact ⟨inner, target, middle, hreach.append rest, htarget⟩
    rcases hrest : execStmts invoke scope rest after with ⟨signal | found, last⟩
    · rw [execStmts_of_ok hfirst, hrest] at h
      obtain ⟨inner, target, middle, hreach, htarget⟩ :=
        Decided.exists_reached scope rest after (hrest ▸ h)
      exact ⟨inner, target, middle, .later hfirst hreach, htarget⟩
    · rw [execStmts_of_ok hfirst, hrest] at h
      have hboth : ends (.ok first, after) ∨ ends (.ok found, last) := hends.or h
      rcases hboth with hown | hlast
      · obtain ⟨inner, target, middle, hreach, htarget⟩ := hin (hfirst ▸ hown)
        exact ⟨inner, target, middle, hreach.append rest, htarget⟩
      · obtain ⟨inner, target, middle, hreach, htarget⟩ :=
          Decided.exists_reached scope rest after (hrest ▸ hlast)
        exact ⟨inner, target, middle, .later hfirst hreach, htarget⟩

end

end

/-! ### The result of a run -/

/-- Of the plain statements only expressions have a result. -/
theorem exists_expr_of_isPlain {target : Stmt} {value : Value} (hplain : target.isPlain = true)
    (h : execStmt invoke scope target start = (.ok (some value), last)) :
    ∃ expr span, target = .expr expr span := by
  cases target with
  | expr expr span => exact ⟨expr, span, rfl⟩
  | branch | block => cases hplain
  | declare kind name init span =>
    rw [execStmt, Eval.bind_apply] at h
    split at h <;> cases h
  | throwing expr span =>
    rw [execStmt, Eval.bind_apply] at h
    split at h <;> cases h
  | returning result span =>
    cases result with
    | none =>
      rw [execStmt] at h
      cases h
    | some expr =>
      rw [execStmt, Eval.bind_apply] at h
      split at h <;> cases h

theorem decided_result (invoke : Invoke) :
    Decided invoke fun last => ∃ value m, last = (.ok (some value), m) where
  nothing := by rintro last ⟨value, m, ⟨⟩⟩
  or := by
    rintro first found middle last ⟨value, m, h⟩
    cases found with
    | none =>
      cases first with
      | none => cases h
      | some value => exact .inl ⟨value, middle, rfl⟩
    | some value => exact .inr ⟨value, last, rfl⟩
  test := by rintro scope test start last signal - ⟨value, m, ⟨⟩⟩

/-- **When statements have a result.** A run that is not stopped has a result if and only if it
reaches a statement that is an expression. -/
theorem isSome_iff_reaches {stmts : List Stmt} {found : Option Value}
    (hrun : execStmts invoke scope stmts start = (.ok found, last)) :
    found.isSome = true ↔ ∃ inner expr span middle,
      Reaches invoke scope stmts start inner (.expr expr span) middle := by
  constructor
  · intro hsome
    obtain ⟨value, rfl⟩ := Option.isSome_iff_exists.mp hsome
    obtain ⟨inner, target, middle, hreach, hplain, result, m, htarget⟩ :=
      (decided_result invoke).exists_reached scope stmts start ⟨value, last, hrun⟩
    obtain ⟨expr, span, rfl⟩ := exists_expr_of_isPlain hplain htarget
    exact ⟨inner, expr, span, middle, hreach⟩
  · rintro ⟨inner, expr, span, middle, hreach⟩
    obtain ⟨own, after, hown, hsome⟩ := hreach.exists_of_execStmts hrun
    rw [execStmt, Eval.bind_apply] at hown
    split at hown <;> cases hown
    exact hsome rfl

end Doctest.Script
