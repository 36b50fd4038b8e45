import Doctest.Proofs.Script.Pairing.Library
import Doctest.Proofs.Script.Parsing.Returns

/-!
# Scripts alongside themselves

Expressions, statements and programs go alongside themselves, with other spans, if the ways in which
they call values go alongside each other. What is the same of machines may depend on how deeply
calls of closures are nested, so there are two pairings where a closure is called: one around the
call and one inside.
-/

namespace Doctest.Script

/-- How values are called if closures and built-in functions are called in given ways. -/
def callValue (closure : Closure → List Value → Eval Value)
    (builtin : Builtin → List Value → Eval Value) : Invoke := fun callee args => do
  match callee with
  | .callable ref =>
    match ← Eval.read ref with
    | .closure made => closure made args
    | .builtin function => builtin function args
  | other => Eval.fail (.notCallable (← Eval.inspect other))

/-- What is done in a call of a closure. -/
def runClosure (invoke : Invoke) (made : Closure) (args : List Value) : Eval Value := do
  let scope ← made.scope.nested
  bindParams scope made.params args
  evalBody invoke scope made.body

theorem callClosure_eq (invoke : Invoke) (made : Closure) (args : List Value) :
    callClosure invoke made args = Eval.asCall (runClosure invoke made args) :=
  rfl

theorem invoke_succ (levels : Nat) :
    invoke (levels + 1) =
      callValue (callClosure (invoke levels)) (Library.call (invoke levels)) :=
  rfl

namespace Pairing

variable {p q : Pairing} {invoke invoke' : Invoke}

/-! ### Scopes -/

section

variable (hp : p.Lawful)
include hp

theorem nested (scope : Scope) : p.Keeps scope.nested :=
  bind (alloc hp .frame _) fun _ => pure _

theorem define (scope : Scope) (name : String) (value : Value) (isMutable : Bool) :
    p.Keeps (scope.define name value isMutable) :=
  change hp scope.innermost _ (by decide)

theorem assign (scope : Scope) (name : String) (value : Value) :
    p.Keeps (scope.assign name value) := by
  refine bind (ofHeap fun _ _ hsame => (hp.resembles hsame).binder? name scope.chain)
    fun found => ?_
  split
  · split
    · exact change hp _ _ (by decide)
    · exact fail hp _
  · exact change hp _ _ (by decide)

theorem value? (scope : Scope) (name : String) : p.Keeps (Eval.ofHeap (scope.get? · name)) :=
  ofHeap fun _ _ hsame => (hp.resembles hsame).get? scope name

theorem value (scope : Scope) (name : String) : p.Keeps (scope.value name) := by
  refine bind (value? hp scope name) fun found => ?_
  split
  · exact pure _
  · exact fail hp _

/-! ### Operators and assignments -/

theorem operate (op : BinaryOp) (left right : Value) :
    p.Keeps (Eval.ofHeap? (·.operate op left right)) :=
  ofHeap? hp (fun _ _ h => h.operate op left right) fun _ => .of_operate

theorem operateUnary (op : UnaryOp) (operand : Value) :
    p.Keeps (Eval.ofHeap? (·.operateUnary op operand)) :=
  ofHeap? hp (fun _ _ h => h.operateUnary op operand) fun _ => .of_operateUnary

variable {right right' : Eval Value} (hright : p.Follows right right')
include hright

theorem assigned (op : Option BinaryOp) {current : Eval Value} (hcurrent : p.Keeps current) :
    p.Follows (Eval.assigned op current right) (Eval.assigned op current right') := by
  cases op with
  | none => exact hright
  | some op => exact bind hcurrent fun _ => bind hright fun _ => operate hp _ _ _

theorem assignProperty (target : Value) (key : String) (op : Option BinaryOp) :
    p.Follows (Eval.assignProperty target key op right)
      (Eval.assignProperty target key op right') :=
  bind (assigned hp hright op (property hp target key)) fun _ =>
    bind (setProperty hp target key _) fun _ => pure _

theorem assignName (scope : Scope) (name : String) (op : Option BinaryOp) :
    p.Follows (Eval.assignName scope name op right) (Eval.assignName scope name op right') :=
  bind (assigned hp hright op (value hp scope name)) fun _ =>
    bind (assign hp scope name _) fun _ => pure _

end

/-! ### Expressions -/

mutual

theorem evalExpr (hp : p.Lawful) (hcalls : p.Calls invoke invoke') (scope : Scope) :
    (expr : Expr) →
      p.Follows (evalExpr invoke scope expr) (evalExpr invoke' scope (expr.mapSpans p.spans))
  | .number .. | .string .. | .bool .. | .null .. | .undefined .. => by
    rw [Expr.mapSpans, Script.evalExpr, Script.evalExpr]
    exact pure _
  | .ident name _ => by
    rw [Expr.mapSpans, Script.evalExpr, Script.evalExpr]
    exact value hp scope name
  | .array items _ => by
    rw [Expr.mapSpans, Script.evalExpr, Script.evalExpr]
    exact bind (evalExprs hp hcalls scope items) fun _ => newArray hp _
  | .object properties _ => by
    rw [Expr.mapSpans, Script.evalExpr, Script.evalExpr]
    exact bind (evalProperties hp hcalls scope properties) fun _ => newObject hp _
  | .member target key _ => by
    rw [Expr.mapSpans, Script.evalExpr, Script.evalExpr]
    exact bind (evalExpr hp hcalls scope target) fun _ => property hp _ key
  | .index target key _ => by
    rw [Expr.mapSpans, Script.evalExpr, Script.evalExpr]
    exact bind (evalExpr hp hcalls scope target) fun found =>
      bind (evalExpr hp hcalls scope key) fun _ => bind (text hp _) fun _ => property hp found _
  | .call callee args _ => by
    rw [Expr.mapSpans, Script.evalExpr, Script.evalExpr]
    refine bind (evalExpr hp hcalls scope callee) fun function => ?_
    refine bind (evalExprs hp hcalls scope args) fun values => ?_
    by_cases hfunction : function.isCallable
    · rw [if_pos hfunction, if_pos hfunction]
      exact hcalls function values
    · rw [if_neg hfunction, if_neg hfunction, Expr.calleeText_mapSpans]
      exact fail hp _
  | .construct callee args _ => by
    rw [Expr.mapSpans, Script.evalExpr, Script.evalExpr, Expr.calleeText_mapSpans]
    exact bind (evalExpr hp hcalls scope callee) fun function =>
      bind (evalExprs hp hcalls scope args) fun values => construct hp hcalls function values _
  | .arrow params body _ => by
    rw [Expr.mapSpans, Script.evalExpr, Script.evalExpr]
    exact newCallable hp _
  | .unary op operand _ => by
    have hplain := evalExpr hp hcalls scope operand
    by_cases hname : op = .typeof ∧ ∃ name span, operand = .ident name span
    · obtain ⟨rfl, name, span, rfl⟩ := hname
      rw [Expr.mapSpans, Expr.mapSpans, Script.evalExpr, Script.evalExpr]
      exact bind (value? hp scope name) fun _ => pure _
    · rw [Expr.mapSpans, Script.evalExpr, Script.evalExpr]
      · exact bind hplain fun value => operateUnary hp op value
      · rintro name span rfl hoperand
        obtain ⟨span, rfl⟩ := Expr.exists_of_mapSpans_eq_ident hoperand
        exact hname ⟨rfl, name, span, rfl⟩
      · rintro name span rfl rfl
        exact hname ⟨rfl, name, span, rfl⟩
  | .binary op left right _ => by
    rw [Expr.mapSpans, Script.evalExpr, Script.evalExpr]
    exact bind (evalExpr hp hcalls scope left) fun a =>
      bind (evalExpr hp hcalls scope right) fun b => operate hp op a b
  | .logical op left right _ => by
    rw [Expr.mapSpans, Script.evalExpr, Script.evalExpr]
    refine bind (evalExpr hp hcalls scope left) fun a => ?_
    by_cases hsettled : op.settledBy a
    · rw [if_pos hsettled, if_pos hsettled]
      exact pure a
    · rw [if_neg hsettled, if_neg hsettled]
      exact evalExpr hp hcalls scope right
  | .conditional test yes no _ => by
    rw [Expr.mapSpans, Script.evalExpr, Script.evalExpr]
    refine bind (evalExpr hp hcalls scope test) fun a => ?_
    by_cases htruthy : a.isTruthy
    · rw [if_pos htruthy, if_pos htruthy]
      exact evalExpr hp hcalls scope yes
    · rw [if_neg htruthy, if_neg htruthy]
      exact evalExpr hp hcalls scope no
  | .assign assigned op value _ => by
    have hvalue := evalExpr hp hcalls scope value
    cases assigned with
    | ident name =>
      rw [Expr.mapSpans, Expr.mapSpans, Script.evalExpr, Script.evalExpr]
      exact assignName hp hvalue scope name op
    | member target key =>
      rw [Expr.mapSpans, Expr.mapSpans, Script.evalExpr, Script.evalExpr]
      exact bind (evalExpr hp hcalls scope target) fun found =>
        assignProperty hp hvalue found key op
    | index target key =>
      rw [Expr.mapSpans, Expr.mapSpans, Script.evalExpr, Script.evalExpr]
      exact bind (evalExpr hp hcalls scope target) fun found =>
        bind (evalExpr hp hcalls scope key) fun _ =>
          bind (text hp _) fun key => assignProperty hp hvalue found key op
    | _ =>
      rw [Expr.mapSpans, Expr.mapSpans, Script.evalExpr, Script.evalExpr]
      · exact fail hp _
      all_goals
        intros
        contradiction

theorem evalExprs (hp : p.Lawful) (hcalls : p.Calls invoke invoke') (scope : Scope) :
    (exprs : List Expr) → p.Follows (evalExprs invoke scope exprs)
      (evalExprs invoke' scope (Expr.mapSpansAll p.spans exprs))
  | [] => by
    rw [Expr.mapSpansAll, Script.evalExprs, Script.evalExprs]
    exact pure _
  | expr :: rest => by
    rw [Expr.mapSpansAll, Script.evalExprs, Script.evalExprs]
    exact bind (evalExpr hp hcalls scope expr) fun _ =>
      bind (evalExprs hp hcalls scope rest) fun _ => pure _

theorem evalProperties (hp : p.Lawful) (hcalls : p.Calls invoke invoke') (scope : Scope) :
    (properties : List (String × Expr)) →
      p.Follows (evalProperties invoke scope properties)
        (evalProperties invoke' scope (Expr.mapSpansUnder p.spans properties))
  | [] => by
    rw [Expr.mapSpansUnder, Script.evalProperties, Script.evalProperties]
    exact pure _
  | (key, expr) :: rest => by
    rw [Expr.mapSpansUnder, Script.evalProperties, Script.evalProperties]
    exact bind (evalExpr hp hcalls scope expr) fun _ =>
      bind (evalProperties hp hcalls scope rest) fun _ => pure _

end

/-! ### Statements -/

theorem evalInitial (hp : p.Lawful) (hcalls : p.Calls invoke invoke') (scope : Scope)
    (name : String) (init : Option Expr) :
    p.Follows (evalInitial invoke scope name init)
      (evalInitial invoke' scope name (init.map (Expr.mapSpans p.spans))) := by
  cases init with
  | none => exact pure _
  | some expr =>
    have hplain := evalExpr hp hcalls scope expr
    cases expr with
    | arrow params body span =>
      rw [Option.map_some, Expr.mapSpans]
      exact newCallable hp _
    | _ =>
      rw [Option.map_some, Expr.mapSpans] at *
      exact hplain

mutual

theorem execStmt (hp : p.Lawful) (hcalls : p.Calls invoke invoke') (scope : Scope) :
    (stmt : Stmt) → (stmt.returns = true → p.returns) →
      p.Follows (execStmt invoke scope stmt) (execStmt invoke' scope (stmt.mapSpans p.spans))
  | .expr expr _, _ => by
    rw [Stmt.mapSpans, Script.execStmt, Script.execStmt]
    exact bind (evalExpr hp hcalls scope expr) fun _ => pure _
  | .declare kind name none _, _ => by
    rw [Stmt.mapSpans, Script.execStmt, Script.execStmt]
    exact bind (evalInitial hp hcalls scope name none) fun _ =>
      bind (define hp scope name _ _) fun _ => pure _
  | .declare kind name (some init) _, _ => by
    rw [Stmt.mapSpans, Script.execStmt, Script.execStmt]
    exact bind (evalInitial hp hcalls scope name (some init)) fun _ =>
      bind (define hp scope name _ _) fun _ => pure _
  | .throwing expr _, _ => by
    rw [Stmt.mapSpans, Script.execStmt, Script.execStmt]
    exact bind (evalExpr hp hcalls scope expr) fun _ => raise _
  | .returning none _, hreturns => by
    rw [Stmt.mapSpans, Script.execStmt, Script.execStmt]
    exact returned (hreturns rfl) _
  | .returning (some expr) _, hreturns => by
    rw [Stmt.mapSpans, Script.execStmt, Script.execStmt]
    exact bind (evalExpr hp hcalls scope expr) fun _ => returned (hreturns rfl) _
  | .branch test yes none _, hreturns => by
    rw [Stmt.mapSpans, Script.execStmt, Script.execStmt]
    refine bind (evalExpr hp hcalls scope test) fun a => ?_
    by_cases htruthy : a.isTruthy
    · rw [if_pos htruthy, if_pos htruthy]
      exact bind (nested hp scope) fun inner => execStmts hp hcalls inner yes hreturns
    · rw [if_neg htruthy, if_neg htruthy]
      exact pure _
  | .branch test yes (some no) _, hreturns => by
    rw [Stmt.mapSpans, Script.execStmt, Script.execStmt]
    rw [Stmt.returns, Bool.or_eq_true] at hreturns
    refine bind (evalExpr hp hcalls scope test) fun a => ?_
    by_cases htruthy : a.isTruthy
    · rw [if_pos htruthy, if_pos htruthy]
      exact bind (nested hp scope) fun inner =>
        execStmts hp hcalls inner yes fun h => hreturns (.inl h)
    · rw [if_neg htruthy, if_neg htruthy]
      exact bind (nested hp scope) fun inner =>
        execStmts hp hcalls inner no fun h => hreturns (.inr h)
  | .block stmts _, hreturns => by
    rw [Stmt.mapSpans, Script.execStmt, Script.execStmt]
    exact bind (nested hp scope) fun inner => execStmts hp hcalls inner stmts hreturns

theorem execStmts (hp : p.Lawful) (hcalls : p.Calls invoke invoke') (scope : Scope) :
    (stmts : List Stmt) → (Stmt.anyReturns stmts = true → p.returns) →
      p.Follows (execStmts invoke scope stmts)
        (execStmts invoke' scope (Stmt.mapSpansAll p.spans stmts))
  | [], _ => by
    rw [Stmt.mapSpansAll, Script.execStmts, Script.execStmts]
    exact pure _
  | stmt :: rest, hreturns => by
    rw [Stmt.mapSpansAll, Script.execStmts, Script.execStmts]
    rw [Stmt.anyReturns, Bool.or_eq_true] at hreturns
    exact bind (execStmt hp hcalls scope stmt fun h => hreturns (.inl h)) fun _ =>
      bind (execStmts hp hcalls scope rest fun h => hreturns (.inr h)) fun _ => pure _

end

/-! ### Calls and programs -/

theorem evalBody (hp : p.Lawful) (hcalls : p.Calls invoke invoke') (scope : Scope) (body : Body) :
    p.Follows (evalBody invoke scope body) (evalBody invoke' scope (body.mapSpans p.spans)) := by
  cases body with
  | expr expr =>
    rw [Body.mapSpans]
    exact evalExpr hp hcalls scope expr
  | block stmts =>
    rw [Body.mapSpans]
    have hstmts := execStmts (hp.returning True) (fun callee args => (hcalls callee args).returning
      fun _ => trivial) scope stmts fun _ => trivial
    exact returnedOr (bind hstmts fun _ => pure _)

theorem bindParams (hp : p.Lawful) (scope : Scope) (params : List String) (args : List Value) :
    p.Keeps (bindParams scope params args) := by
  induction params generalizing args with
  | nil => exact pure _
  | cons param params ih => exact bind (define hp scope param _ true) fun _ => ih _

/-- What machines are the same in inside a call, next to what they are the same in around it. -/
structure Deeper (p q : Pairing) : Prop where
  depth : ∀ {m n : Machine}, p.same m n → m.depth = n.depth
  into : ∀ {m n : Machine}, p.same m n → m.depth < greatestDepth →
    q.same ⟨m.heap, m.depth + 1⟩ ⟨n.heap, n.depth + 1⟩
  back : ∀ {m n : Machine}, q.same m n →
    p.same ⟨m.heap, m.depth - 1⟩ ⟨n.heap, n.depth - 1⟩
  cuts : q.cuts → p.cuts
  stuck : ∀ {m : Machine}, q.stuck m → p.stuck ⟨m.heap, m.depth - 1⟩
  returns : q.returns → p.returns
  spans : p.spans = q.spans

/-- Closures are called on machines that count no more calls than there may be. -/
def Descends (p : Pairing) : Prop :=
  ∃ m n, p.same m n ∧ m.depth < greatestDepth

/-- Where no closure can be called, the calls need not go alongside each other. -/
theorem asCall {x y : Eval Value} (hp : p.Lawful) (hdeeper : p.Deeper q)
    (h : p.Descends → q.Follows x y) : p.Follows (Eval.asCall x) (Eval.asCall y) := by
  rintro ⟨heap, depth⟩ ⟨otherHeap, otherDepth⟩ hsame
  obtain rfl : depth = otherDepth := hdeeper.depth hsame
  unfold Eval.asCall
  dsimp only
  by_cases hdepth : depth < greatestDepth
  · rw [if_pos hdepth, if_pos hdepth]
    have hends := h ⟨_, _, hsame, hdepth⟩ _ _ (hdeeper.into hsame hdepth)
    rcases hfirst : x ⟨heap, depth + 1⟩ with ⟨found, last⟩
    rcases hsecond : y ⟨otherHeap, depth + 1⟩ with ⟨found', other⟩
    rw [hfirst, hsecond] at hends
    rcases hends with ⟨hcuts, hfound⟩ | ⟨hfound, hlast, hadmits⟩
    · exact .inl ⟨hdeeper.cuts hcuts, hfound⟩
    · refine .inr ⟨hfound, hdeeper.back hlast, fun signal hsignal => ?_⟩
      have hadmitted := hadmits signal hsignal
      cases signal with
      | raised => trivial
      | returned => exact hdeeper.returns hadmitted
      | exhausted => exact hdeeper.stuck hadmitted
  · rw [if_neg hdepth, if_neg hdepth]
    exact fail hp _ _ _ hsame

theorem runClosure (hp : p.Lawful) (hcalls : p.Calls invoke invoke') (made : Closure)
    (args : List Value) :
    p.Follows (runClosure invoke made args)
      (runClosure invoke' (made.mapSpans p.spans) args) :=
  bind (nested hp made.scope) fun inner =>
    bind (bindParams hp inner made.params args) fun _ => evalBody hp hcalls inner made.body

theorem callClosure (hp : p.Lawful) (hq : q.Lawful) (hdeeper : p.Deeper q)
    (hcalls : p.Descends → q.Calls invoke invoke') (made : Closure) (args : List Value) :
    p.Follows (callClosure invoke made args)
      (callClosure invoke' (made.mapSpans p.spans) args) := by
  rw [callClosure_eq, callClosure_eq, hdeeper.spans]
  exact asCall hp hdeeper fun hdescends => runClosure hq (hcalls hdescends) made args

theorem callValue {closure closure' : Closure → List Value → Eval Value}
    {builtin builtin' : Builtin → List Value → Eval Value} (hp : p.Lawful)
    (hclosure : ∀ made args, p.Follows (closure made args) (closure' (made.mapSpans p.spans) args))
    (hbuiltin : ∀ function args, p.Follows (builtin function args) (builtin' function args)) :
    p.Calls (Script.callValue closure builtin) (Script.callValue closure' builtin') := by
  intro callee args
  cases callee with
  | callable ref =>
    refine bindCallable hp ref fun callable => ?_
    cases callable with
    | closure made => exact hclosure made args
    | builtin function => exact hbuiltin function args
  | _ => exact bind (inspect hp _) fun _ => fail hp _

/-- Values are called alongside themselves if nothing has to be known where evaluations are cut
off. -/
theorem invoke_keeps (hp : p.Lawful) (hdeeper : p.Deeper p) (hstuck : ∀ m, p.stuck m)
    (levels : Nat) : p.Calls (Script.invoke levels) (Script.invoke levels) := by
  induction levels with
  | zero => exact fun _ _ _ _ hsame => .error hsame (hstuck _)
  | succ levels ih =>
    rw [invoke_succ]
    exact callValue hp (callClosure hp hp hdeeper fun _ => ih) (call hp ih)

theorem runProgram (hp : p.Lawful) (hcalls : p.Calls invoke invoke') (scope : Scope)
    (program : List Stmt) :
    p.Follows (runProgram invoke scope program)
      (runProgram invoke' scope (Stmt.mapSpansAll p.spans program)) := by
  have hstmts := execStmts (hp.returning True) (fun callee args => (hcalls callee args).returning
    fun _ => trivial) scope program fun _ => trivial
  have hvalue := bind hstmts fun value =>
    pure (p := p.returning True) (Except.error (value.getD .undefined) : Except Value Value)
  unfold Script.runProgram
  refine bind (tryCatch hvalue (fun signal hsignal => ?_) rfl rfl) fun found => ?_
  · cases signal with
    | returned value => exact bind (fail hp _) fun _ => pure _
    | raised value => exact bind (raise _) fun _ => pure _
    | exhausted => exact absurd rfl hsignal
  · cases found with
    | ok value => exact pure _
    | error value => exact pure _

/-- Where both evaluations have the same spans, they run the same source texts. -/
theorem runSource (hp : p.Lawful) (hspans : p.spans = id) (hcalls : p.Calls invoke invoke')
    (scope : Scope) (source : String) :
    p.Follows (runSource invoke scope source) (runSource invoke' scope source) := by
  unfold Script.runSource
  cases parse source with
  | ok program =>
    have hprogram := runProgram hp hcalls scope program
    rw [hspans, Stmt.mapSpansAll_id] at hprogram
    exact hprogram
  | error fault => exact fail hp _

end Pairing

end Doctest.Script
