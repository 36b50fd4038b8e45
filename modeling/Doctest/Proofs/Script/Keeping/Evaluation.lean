import Doctest.Proofs.Script.Keeping.Library
import Doctest.Script.Evaluate

/-!
# What evaluating scripts keeps

Every expression, statement, call and program gives a value of the heap, within a scope of the
heap. Statements may return; what calls them never does.
-/

namespace Doctest.Script

open Eval

variable {apart : Place → Prop} {base : Heap} {invoke : Invoke} {scope : Scope}

/-! ### Operators -/

theorem isPrimitive_of_arithmetic {heap : Heap} {f : Float → Float → Float} {a b value : Value}
    (h : heap.arithmetic f a b = some value) : value.isPrimitive = true := by
  obtain ⟨x, -, h⟩ := Option.bind_eq_some_iff.mp h
  obtain ⟨y, -, h⟩ := Option.bind_eq_some_iff.mp h
  cases h
  rfl

theorem isPrimitive_of_compare {heap : Heap} {texts : String → String → Bool}
    {numbers : Float → Float → Bool} {a b value : Value}
    (h : heap.compare texts numbers a b = some value) : value.isPrimitive = true := by
  unfold Heap.compare at h
  split at h
  · cases h
    rfl
  · obtain ⟨x, -, h⟩ := Option.bind_eq_some_iff.mp h
    obtain ⟨y, -, h⟩ := Option.bind_eq_some_iff.mp h
    cases h
    rfl

/-- No operator makes a reference. -/
theorem isPrimitive_of_operate {heap : Heap} {op : BinaryOp} {a b value : Value}
    (h : heap.operate op a b = some value) : value.isPrimitive = true := by
  cases op with
  | add =>
    rw [Heap.operate, Heap.add] at h
    split at h
    · obtain ⟨s, -, h⟩ := Option.bind_eq_some_iff.mp h
      obtain ⟨t, -, h⟩ := Option.bind_eq_some_iff.mp h
      cases h
      rfl
    · exact isPrimitive_of_arithmetic h
  | sub | mul | div | rem | pow => exact isPrimitive_of_arithmetic h
  | looseEq | looseNe =>
    obtain ⟨equal, -, rfl⟩ := Option.map_eq_some_iff.mp h
    rfl
  | strictEq | strictNe =>
    cases h
    rfl
  | lt | le | gt | ge => exact isPrimitive_of_compare h

theorem isPrimitive_of_operateUnary {heap : Heap} {op : UnaryOp} {operand value : Value}
    (h : heap.operateUnary op operand = some value) : value.isPrimitive = true := by
  cases op with
  | not | typeof =>
    cases h
    rfl
  | neg | plus =>
    obtain ⟨x, -, rfl⟩ := Option.map_eq_some_iff.mp h
    rfl

theorem operate_gives (op : BinaryOp) (a b : Value) :
    GivesValue apart False base (ofHeap? (·.operate op a b)) :=
  .ofHeap? fun _ _ _ _ h => .of_isPrimitive (isPrimitive_of_operate h)

theorem operateUnary_gives (op : UnaryOp) (operand : Value) :
    GivesValue apart False base (ofHeap? (·.operateUnary op operand)) :=
  .ofHeap? fun _ _ _ _ h => .of_isPrimitive (isPrimitive_of_operateUnary h)

/-! ### Expressions -/

theorem Eval.Keeps.mayReturn {α : Type} {result : Heap → α → Prop} {eval : Eval α}
    (h : Gives apart False base result eval) : Gives apart True base result eval :=
  h.allowing (fun _ _ hstep => hstep) False.elim

theorem assigned_gives (op : Option BinaryOp) {current right : Eval Value}
    (hcurrent : GivesValue apart False base current) (hright : GivesValue apart False base right) :
    GivesValue apart False base (assigned op current right) := by
  cases op with
  | none => exact hright
  | some op =>
    exact .seq hcurrent fun _ => .seq hright fun _ => operate_gives _ _ _

theorem assignProperty_gives {target : Value} (htarget : target.Of apart base) (key : String)
    (op : Option BinaryOp) {right : Eval Value} (hright : GivesValue apart False base right) :
    GivesValue apart False base (assignProperty target key op right) := by
  refine .bind (assigned_gives op (property_gives htarget key) hright)
    fun heap value hgrows hvalue => ?_
  exact .bind (setProperty_runs (htarget.later hgrows) key hvalue) fun _ _ hlater _ =>
    .pure fun _ hlast => hvalue.later (hlater.trans hlast)

theorem assignName_gives (hscope : scope.Of apart base) (name : String) (op : Option BinaryOp)
    {right : Eval Value} (hright : GivesValue apart False base right) :
    GivesValue apart False base (assignName scope name op right) := by
  refine .bind (assigned_gives op (Scope.value_gives hscope name) hright)
    fun heap value hgrows hvalue => ?_
  exact .bind (Scope.assign_runs (hscope.later hgrows) name hvalue) fun _ _ hlater _ =>
    .pure fun _ hlast => hvalue.later (hlater.trans hlast)

mutual

theorem evalExpr_gives (hinvoke : invoke.Keeps apart) {base : Heap}
    (hscope : scope.Of apart base) :
    (expr : Expr) → GivesValue apart False base (evalExpr invoke scope expr)
  | .number .. | .string .. | .bool .. | .null .. | .undefined .. => by
    rw [evalExpr]
    exact .pure fun _ _ => trivial
  | .ident name _ => by
    rw [evalExpr]
    exact Scope.value_gives hscope name
  | .array items _ => by
    rw [evalExpr]
    exact .bind (evalExprs_gives hinvoke hscope items) fun _ values _ hvalues =>
      newArray_gives fun value hmem => hvalues value (List.mem_toArray.mp hmem)
  | .object properties _ => by
    rw [evalExpr]
    exact .bind (evalProperties_gives hinvoke hscope properties) fun _ pairs _ hpairs =>
      newObject_gives (Dict.all_ofList hpairs)
  | .member target key _ => by
    rw [evalExpr]
    exact .bind (evalExpr_gives hinvoke hscope target) fun _ _ _ htarget =>
      property_gives htarget key
  | .index target key _ => by
    rw [evalExpr]
    refine .bind (evalExpr_gives hinvoke hscope target) fun heap found hgrows htarget => ?_
    refine .bind (evalExpr_gives hinvoke (hscope.later hgrows) key) fun later name hlater _ => ?_
    exact .bind (text_runs name) fun _ _ hlast _ =>
      property_gives (htarget.later (hlater.trans hlast)) _
  | .call callee args _ => by
    rw [evalExpr]
    refine .bind (evalExpr_gives hinvoke hscope callee) fun heap function hgrows hfunction => ?_
    refine .bind (evalExprs_gives hinvoke (hscope.later hgrows) args)
      fun later values hlater hvalues => ?_
    split
    · exact hinvoke (hfunction.later hlater) hvalues
    · exact fail_gives _
  | .construct callee args _ => by
    rw [evalExpr]
    refine .bind (evalExpr_gives hinvoke hscope callee) fun heap function hgrows hfunction => ?_
    exact .bind (evalExprs_gives hinvoke (hscope.later hgrows) args)
      fun later values hlater hvalues =>
        Library.construct_gives hinvoke (hfunction.later hlater) hvalues _
  | .arrow params body _ => by
    rw [evalExpr]
    exact newCallable_gives hscope
  | .unary op operand _ => by
    have hplain := evalExpr_gives hinvoke hscope operand
    by_cases hname : op = .typeof ∧ ∃ name span, operand = .ident name span
    · obtain ⟨rfl, name, span, rfl⟩ := hname
      rw [evalExpr]
      exact .seq (ofHeap_runs _) fun _ => .pure fun _ _ => trivial
    · rw [evalExpr]
      · exact .seq hplain fun value => operateUnary_gives op value
      · rintro name span rfl rfl
        exact hname ⟨rfl, name, span, rfl⟩
  | .binary op left right _ => by
    rw [evalExpr]
    refine .bind (evalExpr_gives hinvoke hscope left) fun heap a hgrows _ => ?_
    exact .bind (evalExpr_gives hinvoke (hscope.later hgrows) right) fun _ b _ _ =>
      operate_gives op a b
  | .logical op left right _ => by
    rw [evalExpr]
    refine .bind (evalExpr_gives hinvoke hscope left) fun heap a hgrows ha => ?_
    split
    · exact .pure fun _ hlater => ha.later hlater
    · exact evalExpr_gives hinvoke (hscope.later hgrows) right
  | .conditional test yes no _ => by
    rw [evalExpr]
    refine .bind (evalExpr_gives hinvoke hscope test) fun heap a hgrows _ => ?_
    split
    · exact evalExpr_gives hinvoke (hscope.later hgrows) yes
    · exact evalExpr_gives hinvoke (hscope.later hgrows) no
  | .assign assigned op value _ => by
    cases assigned with
    | ident name =>
      rw [evalExpr]
      exact assignName_gives hscope name op (evalExpr_gives hinvoke hscope value)
    | member target key =>
      rw [evalExpr]
      exact .bind (evalExpr_gives hinvoke hscope target) fun _ _ hgrows htarget =>
        assignProperty_gives htarget key op (evalExpr_gives hinvoke (hscope.later hgrows) value)
    | index target key =>
      rw [evalExpr]
      refine .bind (evalExpr_gives hinvoke hscope target) fun heap found hgrows htarget => ?_
      refine .bind (evalExpr_gives hinvoke (hscope.later hgrows) key)
        fun middle name hmiddle _ => ?_
      refine .bind (text_runs name) fun last _ hlast _ => ?_
      have hlater := hmiddle.trans hlast
      exact assignProperty_gives (htarget.later hlater) _ op
        (evalExpr_gives hinvoke (hscope.later (hgrows.trans hlater)) value)
    | _ =>
      rw [evalExpr]
      · exact fail_gives _
      all_goals
        intros
        contradiction

theorem evalExprs_gives (hinvoke : invoke.Keeps apart) {base : Heap}
    (hscope : scope.Of apart base) :
    (exprs : List Expr) → Gives apart False base (fun heap values => AllOf apart heap values)
      (evalExprs invoke scope exprs)
  | [] => by
    rw [evalExprs]
    exact .pure fun _ _ value hmem => by cases hmem
  | expr :: rest => by
    rw [evalExprs]
    refine .bind (evalExpr_gives hinvoke hscope expr) fun heap value hgrows hvalue => ?_
    refine .bind (evalExprs_gives hinvoke (hscope.later hgrows) rest)
      fun later values hlater hvalues => ?_
    exact .pure fun last hlast =>
      .cons (hvalue.later (hlater.trans hlast)) (hvalues.later hlast)

theorem evalProperties_gives (hinvoke : invoke.Keeps apart) {base : Heap}
    (hscope : scope.Of apart base) :
    (properties : List (String × Expr)) →
      Gives apart False base (fun heap pairs => ∀ pair ∈ pairs, pair.2.Of apart heap)
        (evalProperties invoke scope properties)
  | [] => by
    rw [evalProperties]
    exact .pure fun _ _ pair hmem => by cases hmem
  | (key, expr) :: rest => by
    rw [evalProperties]
    refine .bind (evalExpr_gives hinvoke hscope expr) fun heap value hgrows hvalue => ?_
    refine .bind (evalProperties_gives hinvoke (hscope.later hgrows) rest)
      fun later pairs hlater hpairs => ?_
    refine .pure fun last hlast => ?_
    rintro pair (_ | ⟨_, hmem⟩)
    · exact hvalue.later (hlater.trans hlast)
    · exact (hpairs pair hmem).later hlast

end

/-! ### Statements -/

theorem evalInitial_gives (hinvoke : invoke.Keeps apart) (hscope : scope.Of apart base)
    (name : String) (init : Option Expr) :
    GivesValue apart False base (evalInitial invoke scope name init) := by
  unfold evalInitial
  split
  · exact .pure fun _ _ => trivial
  · exact newCallable_gives hscope
  · exact evalExpr_gives hinvoke hscope _

mutual

theorem execStmt_gives (hinvoke : invoke.Keeps apart) {base : Heap} {scope : Scope}
    (hscope : scope.Of apart base) :
    (stmt : Stmt) →
      Gives apart True base (fun heap value? => ∀ value ∈ value?, value.Of apart heap)
        (execStmt invoke scope stmt)
  | .expr expr _ => by
    rw [execStmt]
    exact .bind (evalExpr_gives hinvoke hscope expr).mayReturn fun _ value _ hvalue =>
      .pure fun _ hlater _ hmem => Option.mem_some.mp hmem ▸ hvalue.later hlater
  | .declare kind name init _ => by
    rw [execStmt]
    refine .bind (evalInitial_gives hinvoke hscope name init).mayReturn
      fun heap value hgrows hvalue => ?_
    exact .seq (Scope.define_runs (hscope.later hgrows) name hvalue _) fun _ =>
      .pure fun _ _ _ hmem => by cases hmem
  | .throwing expr _ => by
    rw [execStmt]
    exact .bind (evalExpr_gives hinvoke hscope expr).mayReturn fun _ _ _ hvalue => .raise hvalue
  | .returning none _ => by
    rw [execStmt]
    exact .returned trivial
  | .returning (some expr) _ => by
    rw [execStmt]
    exact .bind (evalExpr_gives hinvoke hscope expr).mayReturn fun _ _ _ hvalue =>
      .returned hvalue
  | .branch test yes none _ => by
    rw [execStmt]
    refine .bind (evalExpr_gives hinvoke hscope test).mayReturn fun heap value hgrows _ => ?_
    split
    · exact .bind (Scope.nested_gives (hscope.later hgrows)) fun _ _ _ hinner =>
        execStmts_gives hinvoke hinner yes
    · exact .pure fun _ _ _ hmem => by cases hmem
  | .branch test yes (some no) _ => by
    rw [execStmt]
    refine .bind (evalExpr_gives hinvoke hscope test).mayReturn fun heap value hgrows _ => ?_
    split
    · exact .bind (Scope.nested_gives (hscope.later hgrows)) fun _ _ _ hinner =>
        execStmts_gives hinvoke hinner yes
    · exact .bind (Scope.nested_gives (hscope.later hgrows)) fun _ _ _ hinner =>
        execStmts_gives hinvoke hinner no
  | .block stmts _ => by
    rw [execStmt]
    exact .bind (Scope.nested_gives hscope) fun _ _ _ hinner =>
      execStmts_gives hinvoke hinner stmts

theorem execStmts_gives (hinvoke : invoke.Keeps apart) {base : Heap} {scope : Scope}
    (hscope : scope.Of apart base) :
    (stmts : List Stmt) →
      Gives apart True base (fun heap value? => ∀ value ∈ value?, value.Of apart heap)
        (execStmts invoke scope stmts)
  | [] => by
    rw [execStmts]
    exact .pure fun _ _ _ hmem => by cases hmem
  | stmt :: rest => by
    rw [execStmts]
    refine .bind (execStmt_gives hinvoke hscope stmt) fun heap first hgrows hfirst => ?_
    refine .bind (execStmts_gives hinvoke (hscope.later hgrows) rest)
      fun later last hlater hlast => .pure fun final hfinal value hmem => ?_
    cases last with
    | some value' => exact Value.Of.later (hlast value hmem) hfinal
    | none => exact Value.Of.later (hfirst value hmem) (hlater.trans hfinal)

end

/-! ### Calls and programs -/

theorem evalBody_gives (hinvoke : invoke.Keeps apart) (hscope : scope.Of apart base)
    (body : Body) : GivesValue apart False base (evalBody invoke scope body) := by
  cases body with
  | expr expr => exact evalExpr_gives hinvoke hscope expr
  | block stmts =>
    have hstmts := execStmts_gives hinvoke hscope stmts
    exact .returnedOr (.seq hstmts fun _ => .pure fun _ _ => trivial)

theorem bindParams_runs (hscope : scope.Of apart base) (params : List String) {args : List Value}
    (hargs : AllOf apart base args) : Runs apart False base (bindParams scope params args) := by
  induction params generalizing base args with
  | nil => exact .pure fun _ _ => trivial
  | cons param params ih =>
    have hfirst : (args.headD .undefined).Of apart base := by
      cases args with
      | nil => trivial
      | cons arg rest => exact hargs arg List.mem_cons_self
    refine .bind (Scope.define_runs hscope param hfirst true) fun heap _ hgrows _ => ?_
    exact ih (hscope.later hgrows) fun arg hmem =>
      (hargs arg (List.mem_of_mem_tail hmem)).later hgrows

/-- Calls are counted up and down again. -/
theorem asCall_gives {eval : Eval Value} (h : GivesValue apart False base eval) :
    GivesValue apart False base (asCall eval) := by
  rintro ⟨heap, depth⟩ hbase hclosed
  unfold asCall
  dsimp only
  split
  · have hkept := h ⟨heap, depth + 1⟩ hbase hclosed
    rcases hrun : eval ⟨heap, depth + 1⟩ with ⟨found, last, lastDepth⟩
    rw [hrun] at hkept
    have hdepth : lastDepth = depth + 1 := hkept.depth
    exact ⟨hkept.grows, hkept.closed, hkept.same, by simp [hdepth], hkept.path, hkept.found⟩
  · exact fail_gives _ _ hbase hclosed

theorem callClosure_gives (hinvoke : invoke.Keeps apart) {made : Closure}
    (hmade : made.scope.Of apart base) {args : List Value} (hargs : AllOf apart base args) :
    GivesValue apart False base (callClosure invoke made args) := by
  apply asCall_gives
  refine .bind (Scope.nested_gives hmade) fun heap inner hgrows hinner => ?_
  refine .bind (bindParams_runs hinner made.params (hargs.later hgrows)) fun _ _ hlater _ => ?_
  exact evalBody_gives hinvoke (hinner.later hlater) made.body

/-- Calling a value gives a value, however many levels of calls are granted. -/
theorem invoke_keeps (levels : Nat) : Invoke.Keeps apart (Script.invoke levels) := by
  induction levels with
  | zero => exact fun _ _ => .exhausted
  | succ levels ih =>
    intro base callee args hcallee hargs
    unfold Script.invoke
    split
    case h_1 ref =>
      refine .bind (.read hcallee.2) fun heap callable hgrows hcallable => ?_
      have hargs := hargs.later hgrows
      cases callable with
      | closure made => exact callClosure_gives ih hcallable hargs
      | builtin function => exact Library.call_gives ih hcallable hargs
    case h_2 => exact .seq (inspect_runs _) fun _ => fail_gives _

/-- The built-in function that is called. -/
def Callable.builtin? : Callable → Option Builtin
  | .closure _ => none
  | .builtin function => some function

theorem Callable.eq_of_builtin? {callable : Callable} {function : Builtin}
    (h : callable.builtin? = some function) : callable = .builtin function := by
  cases callable with
  | closure made => cases h
  | builtin other => exact congrArg Callable.builtin (Option.some.inj h)

/-- A cell that holds a built-in function is called as that. -/
theorem invoke_builtin {levels : Nat} {callee : Ref .callable} {function : Builtin}
    {start : Machine} (hget : start.heap.get callee = .builtin function) (args : List Value) :
    Script.invoke (levels + 1) (.callable callee) args start =
      Library.call (Script.invoke levels) function args start := by
  have hread : Eval.read callee start = (.ok (.builtin function), start) := by
    rw [← hget]
    rfl
  change (Eval.read callee >>= fun callable => _) start = _
  rw [Eval.bind_apply, hread]

theorem runProgram_gives (hinvoke : invoke.Keeps apart) (hscope : scope.Of apart base)
    (program : List Stmt) : GivesValue apart False base (runProgram invoke scope program) := by
  have hstmts : Gives apart True base (fun heap found => Library.Outcome.Of apart heap found)
      (do return .error ((← execStmts invoke scope program).getD .undefined)) :=
    .bind (execStmts_gives hinvoke hscope program) fun _ _ _ hvalue =>
      .pure fun _ hlater => (of_getD hvalue).later hlater
  unfold runProgram
  refine .bind (.tryCatch hstmts fun heap signal _ hsignal => ?_) fun _ found _ hfound => ?_
  · cases signal with
    | returned value =>
      exact .bind (fail_gives _) fun _ value _ (h : False) => h.elim
    | raised value =>
      exact .bind (.raise hsignal) fun _ value _ (h : False) => h.elim
    | exhausted =>
      exact .bind .exhausted fun _ value _ (h : False) => h.elim
  · cases found <;> exact .pure fun _ hlater => Value.Of.later hfound hlater

theorem runSource_gives (hinvoke : invoke.Keeps apart) (hscope : scope.Of apart base)
    (source : String) : GivesValue apart False base (runSource invoke scope source) := by
  unfold runSource
  split
  · exact runProgram_gives hinvoke hscope _
  · exact fail_gives _

end Doctest.Script
