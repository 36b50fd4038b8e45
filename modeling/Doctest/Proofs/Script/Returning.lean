import Doctest.Proofs.Script.Pairing.Settling
import Doctest.Proofs.Script.Reaching
import Doctest.Script.Session

/-!
# A return stays in its call

A statement that returns ends the statements it stands among, and with them the call of the closure
whose body they are. Nothing else ends by returning: neither calls nor expressions do, and no
program does, since the parser takes a `return` only in the body of a function.
-/

namespace Doctest.Script

/-- An evaluation that never ends by returning, whatever the machine. -/
def Eval.NeverReturns {α : Type} (x : Eval α) : Prop :=
  ∀ start value, (x start).1 ≠ .error (.returned value)

/-- What is done first in a call of a closure: its parameters are bound to arguments. -/
def Closure.enter (made : Closure) (args : List Value) : Eval Scope := do
  let scope ← made.scope.nested
  bindParams scope made.params args
  return scope

/-! ### Evaluations that do not return -/

namespace Pairing

/-- The same machine twice, of which nothing is known. Neither evaluation returns. -/
def plain : Pairing :=
  itself (fun _ => True) False fun _ => True

theorem plain_settles : plain.Settles :=
  itself_settles (.of_depth fun _ => True) fun _ _ _ => trivial

theorem plain_lawful : plain.Lawful :=
  plain_settles.toLawful

theorem plain_invoke (levels : Nat) : plain.Calls (Script.invoke levels) (Script.invoke levels) :=
  invoke_keeps plain_lawful (itself_deeper (fun _ _ => trivial) id id) plain_settles.stuck levels

theorem neverReturns_of_plain {α : Type} {x y : Eval α} (h : plain.Follows x y) :
    x.NeverReturns :=
  fun start => (eq_of_itself id h (trivial : (fun _ : Machine => True) start)).2.2

end Pairing

open Pairing (plain_lawful plain_settles plain_invoke neverReturns_of_plain)

section

variable (levels : Nat)

theorem evalExpr_neverReturns (scope : Scope) (expr : Expr) :
    (evalExpr (invoke levels) scope expr).NeverReturns :=
  neverReturns_of_plain (Pairing.evalExpr plain_lawful (plain_invoke levels) scope expr)

/-- Statements return only if a `return` stands among them. -/
theorem execStmts_neverReturns (scope : Scope) {stmts : List Stmt}
    (h : Stmt.anyReturns stmts = false) : (execStmts (invoke levels) scope stmts).NeverReturns := by
  refine neverReturns_of_plain (Pairing.execStmts plain_lawful (plain_invoke levels) scope stmts ?_)
  intro hreturns
  rw [h] at hreturns
  cases hreturns

/-- No program returns. -/
theorem program_neverReturns {source : String} {program : List Stmt}
    (h : parse source = .ok program) (scope : Scope) :
    (execStmts (invoke levels) scope program).NeverReturns :=
  execStmts_neverReturns levels scope (anyReturns_of_parse h)

/-- A program runs as if nothing were done about a stray return. -/
theorem runProgram_of_parse {source : String} {program : List Stmt}
    (h : parse source = .ok program) (scope : Scope) :
    runProgram (invoke levels) scope program = do
      return (← execStmts (invoke levels) scope program).getD .undefined := by
  funext start
  have hnever := program_neverReturns levels h scope start
  rw [runProgram, Eval.bind_apply, Eval.tryCatch_apply, Eval.bind_apply, Eval.bind_apply]
  revert hnever
  rcases execStmts (invoke levels) scope program start with ⟨signal | found, last⟩
  · intro hnever
    cases signal with
    | returned value => exact absurd rfl (hnever value)
    | raised | exhausted => rfl
  · exact fun _ => rfl

theorem invoke_neverReturns (callee : Value) (args : List Value) :
    (invoke levels callee args).NeverReturns :=
  neverReturns_of_plain (plain_invoke levels callee args)

theorem call_neverReturns (function : Builtin) (args : List Value) :
    (Library.call (invoke levels) function args).NeverReturns :=
  neverReturns_of_plain (Pairing.call plain_lawful (plain_invoke levels) function args)

theorem construct_neverReturns (callee : Value) (args : List Value) (shown : String) :
    (Library.construct (invoke levels) callee args shown).NeverReturns :=
  neverReturns_of_plain (Pairing.construct plain_lawful (plain_invoke levels) callee args shown)

theorem property_neverReturns (target : Value) (key : String) :
    (Eval.property target key).NeverReturns :=
  neverReturns_of_plain (Pairing.property plain_lawful target key)

theorem settle_neverReturns (limit : Nat) (value : Value) :
    (settle (invoke levels) limit value).NeverReturns :=
  neverReturns_of_plain (Pairing.settle plain_settles (plain_invoke levels) limit value)

theorem handle_neverReturns (ref : Ref .promise) (handler value : Value) :
    ((Settler.calling (invoke levels)).handle ref handler value).NeverReturns :=
  neverReturns_of_plain (Pairing.outcome (plain_invoke levels handler [value]))

end

/-! ### Where a run returns -/

variable {levels : Nat} {scope : Scope} {start last : Machine} {value : Value}

/-- Of the plain statements only those return that are there for it. -/
theorem exists_returning_of_isPlain {target : Stmt} (hplain : target.isPlain = true)
    (h : execStmt (invoke levels) scope target start = (.error (.returned value), last)) :
    ∃ result span, target = .returning result span := by
  have hnever {target : Stmt} (hreturns : Stmt.anyReturns [target] = false)
      (hrun : execStmt (invoke levels) scope target start = (.error (.returned value), last)) :
      False :=
    execStmts_neverReturns levels scope hreturns start value
      (congrArg Prod.fst (execStmts_of_error hrun))
  cases target with
  | returning result span => exact ⟨result, span, rfl⟩
  | branch | block => cases hplain
  | expr | declare | throwing => exact (hnever rfl h).elim

theorem decided_returned (levels : Nat) (value : Value) (last : Machine) :
    Decided (invoke levels) (· = (.error (.returned value), last)) where
  nothing := nofun
  or := nofun
  test htest hreturned := by
    cases hreturned
    exact evalExpr_neverReturns levels _ _ _ _ (congrArg Prod.fst htest)

/-- Statements return if and only if a run of them reaches a `return` among them that gives the
value. -/
theorem returns_iff_reaches {stmts : List Stmt} :
    execStmts (invoke levels) scope stmts start = (.error (.returned value), last) ↔
      ∃ inner result span middle,
        Reaches (invoke levels) scope stmts start inner (.returning result span) middle ∧
          execStmt (invoke levels) inner (.returning result span) middle =
            (.error (.returned value), last) := by
  constructor
  · intro h
    obtain ⟨inner, target, middle, hreach, hplain, htarget⟩ :=
      (decided_returned levels value last).exists_reached scope stmts start h
    obtain ⟨result, span, rfl⟩ := exists_returning_of_isPlain hplain htarget
    exact ⟨inner, result, span, middle, hreach, htarget⟩
  · rintro ⟨inner, result, span, middle, hreach, htarget⟩
    exact hreach.execStmts_error htarget

/-- Where the body of a closure returns, its call gives that value, and is counted off. -/
theorem callClosure_of_returned {made : Closure} {args : List Value} {stmts : List Stmt}
    {entered : Machine} (hbody : made.body = .block stmts) (hdepth : start.depth < greatestDepth)
    (henter : made.enter args ⟨start.heap, start.depth + 1⟩ = (.ok scope, entered))
    (hreturns : execStmts (invoke levels) scope stmts entered = (.error (.returned value), last)) :
    callClosure (invoke levels) made args start = (.ok value, ⟨last.heap, last.depth - 1⟩) := by
  have hrun : runClosure (invoke levels) made args =
      made.enter args >>= fun scope => evalBody (invoke levels) scope made.body := by
    simp only [runClosure, Closure.enter, bind_assoc, pure_bind]
  have hgiven : evalBody (invoke levels) scope (.block stmts) entered = (.ok value, last) := by
    rw [evalBody, Eval.returnedOr, Eval.bind_apply, hreturns]
  rw [callClosure_eq, hrun, Eval.asCall, if_pos hdepth, Eval.bind_apply, henter, hbody]
  dsimp only
  rw [hgiven]

/-- **A return stays in its call.** No program that the parser takes ends by returning: what is done
about a stray return is never done. Nor does a call of a value or of a built-in function, a
construction, a property, a handler or anything that settles, on any machine. In the body of a
closure the statements return if and only if a `return` among them is reached; what it gives is then
what that call of the closure gives. -/
theorem returns_stay_in_calls (levels : Nat) :
    (∀ source program, parse source = .ok program → ∀ scope,
      (execStmts (invoke levels) scope program).NeverReturns ∧
        runProgram (invoke levels) scope program = do
          return (← execStmts (invoke levels) scope program).getD .undefined) ∧
    (∀ callee args, (invoke levels callee args).NeverReturns) ∧
    (∀ function args, (Library.call (invoke levels) function args).NeverReturns) ∧
    (∀ callee args shown, (Library.construct (invoke levels) callee args shown).NeverReturns) ∧
    (∀ target key, (Eval.property target key).NeverReturns) ∧
    (∀ ref handler value,
      ((Settler.calling (invoke levels)).handle ref handler value).NeverReturns) ∧
    (∀ limit value, (settle (invoke levels) limit value).NeverReturns) ∧
    ∀ made args stmts start scope entered, made.body = .block stmts → start.depth < greatestDepth →
      made.enter args ⟨start.heap, start.depth + 1⟩ = (.ok scope, entered) → ∀ value last,
      (execStmts (invoke levels) scope stmts entered = (.error (.returned value), last) ↔
        ∃ inner result span middle,
          Reaches (invoke levels) scope stmts entered inner (.returning result span) middle ∧
            execStmt (invoke levels) inner (.returning result span) middle =
              (.error (.returned value), last)) ∧
      (execStmts (invoke levels) scope stmts entered = (.error (.returned value), last) →
        callClosure (invoke levels) made args start =
          (.ok value, ⟨last.heap, last.depth - 1⟩)) := by
  refine ⟨fun source program h scope =>
      ⟨program_neverReturns levels h scope, runProgram_of_parse levels h scope⟩,
    invoke_neverReturns levels, call_neverReturns levels, construct_neverReturns levels,
    property_neverReturns, handle_neverReturns levels, settle_neverReturns levels, ?_⟩
  intro made args stmts start scope entered hbody hdepth henter value last
  exact ⟨returns_iff_reaches, callClosure_of_returned hbody hdepth henter⟩

/-- A script that calls a function that returns from a branch. -/
def returningScript : String :=
  "let f = x => \x7b if (x) return 'a' \x7d; f(1)"

/-- The parser takes a script with a `return` in a branch of a function, and a closure that returns
from a block gives what is returned. -/
theorem returns_stay_in_calls_of_branch :
    (∃ program, parse returningScript = .ok program ∧
      ∀ scope, (execStmts (invoke 4) scope program).NeverReturns) ∧
    (callClosure (invoke 4)
      ⟨none, [], .block [.block [.returning none ⟨0, 0⟩] ⟨0, 0⟩], ⟨[], ⟨0⟩⟩⟩ []
      ⟨Heap.empty, 0⟩).1 = .ok .undefined := by
  obtain ⟨hprograms, -, -, -, -, -, -, hcalls⟩ := returns_stay_in_calls 4
  constructor
  · have hok : (parse returningScript).isOk = true := by decide +kernel
    cases hprogram : parse returningScript with
    | error fault =>
      rw [hprogram] at hok
      cases hok
    | ok program => exact ⟨program, rfl, fun scope => (hprograms _ program hprogram scope).1⟩
  · let span : Span := ⟨0, 0⟩
    let made : Closure :=
      ⟨none, [], .block [.block [.returning none span] span], ⟨[], ⟨0⟩⟩⟩
    let start : Machine := ⟨Heap.empty, 0⟩
    obtain ⟨hreturns, hgives⟩ := hcalls made [] _ start _ _ rfl (by decide) rfl .undefined
      (made.scope.nested (made.scope.nested ⟨start.heap, 1⟩).2).2
    have hrun := hreturns.mpr ⟨_, none, span, _, .within .block rfl .here, by rw [execStmt]; rfl⟩
    exact congrArg Prod.fst (hgives hrun)

end Doctest.Script
