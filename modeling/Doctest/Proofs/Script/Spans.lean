import Doctest.Proofs.Script.Cells
import Doctest.Script.Evaluate

/-!
# Spans do not matter

The spans of a syntax tree tell where it was read from. A tree with other spans is shown in the same
way, and so is a function that is made from it; a heap whose functions have other spans is the same
heap otherwise.
-/

namespace Doctest.Script

/-! ### Trees with other spans -/

mutual

/-- An expression with other spans. -/
def Expr.mapSpans (f : Span → Span) : Expr → Expr
  | .number x span => .number x (f span)
  | .string s span => .string s (f span)
  | .bool b span => .bool b (f span)
  | .null span => .null (f span)
  | .undefined span => .undefined (f span)
  | .ident name span => .ident name (f span)
  | .array items span => .array (Expr.mapSpansAll f items) (f span)
  | .object properties span => .object (Expr.mapSpansUnder f properties) (f span)
  | .member target property span => .member (target.mapSpans f) property (f span)
  | .index target key span => .index (target.mapSpans f) (key.mapSpans f) (f span)
  | .call callee args span => .call (callee.mapSpans f) (Expr.mapSpansAll f args) (f span)
  | .construct callee args span =>
    .construct (callee.mapSpans f) (Expr.mapSpansAll f args) (f span)
  | .arrow params body span => .arrow params (body.mapSpans f) (f span)
  | .unary op operand span => .unary op (operand.mapSpans f) (f span)
  | .binary op left right span => .binary op (left.mapSpans f) (right.mapSpans f) (f span)
  | .logical op left right span => .logical op (left.mapSpans f) (right.mapSpans f) (f span)
  | .conditional test yes no span =>
    .conditional (test.mapSpans f) (yes.mapSpans f) (no.mapSpans f) (f span)
  | .assign target op value span => .assign (target.mapSpans f) op (value.mapSpans f) (f span)

/-- Expressions with other spans. -/
def Expr.mapSpansAll (f : Span → Span) : List Expr → List Expr
  | [] => []
  | expr :: rest => expr.mapSpans f :: Expr.mapSpansAll f rest

/-- Expressions under keys, with other spans. -/
def Expr.mapSpansUnder (f : Span → Span) : List (String × Expr) → List (String × Expr)
  | [] => []
  | (key, expr) :: rest => (key, expr.mapSpans f) :: Expr.mapSpansUnder f rest

/-- The body of a function with other spans. -/
def Body.mapSpans (f : Span → Span) : Body → Body
  | .expr value => .expr (value.mapSpans f)
  | .block stmts => .block (Stmt.mapSpansAll f stmts)

/-- A statement with other spans. -/
def Stmt.mapSpans (f : Span → Span) : Stmt → Stmt
  | .expr value span => .expr (value.mapSpans f) (f span)
  | .declare kind name none span => .declare kind name none (f span)
  | .declare kind name (some init) span => .declare kind name (some (init.mapSpans f)) (f span)
  | .throwing value span => .throwing (value.mapSpans f) (f span)
  | .returning none span => .returning none (f span)
  | .returning (some value) span => .returning (some (value.mapSpans f)) (f span)
  | .branch test yes none span =>
    .branch (test.mapSpans f) (Stmt.mapSpansAll f yes) none (f span)
  | .branch test yes (some no) span =>
    .branch (test.mapSpans f) (Stmt.mapSpansAll f yes) (some (Stmt.mapSpansAll f no)) (f span)
  | .block stmts span => .block (Stmt.mapSpansAll f stmts) (f span)

/-- Statements with other spans. -/
def Stmt.mapSpansAll (f : Span → Span) : List Stmt → List Stmt
  | [] => []
  | stmt :: rest => stmt.mapSpans f :: Stmt.mapSpansAll f rest

end

/-! ### The same spans -/

mutual

@[simp] theorem Expr.mapSpans_id : (expr : Expr) → expr.mapSpans id = expr
  | .number .. | .string .. | .bool .. | .null .. | .undefined .. | .ident .. => rfl
  | .array items _ => by rw [Expr.mapSpans, Expr.mapSpansAll_id items, id]
  | .object properties _ => by rw [Expr.mapSpans, Expr.mapSpansUnder_id properties, id]
  | .member target _ _ => by rw [Expr.mapSpans, Expr.mapSpans_id target, id]
  | .index target key _ => by
    rw [Expr.mapSpans, Expr.mapSpans_id target, Expr.mapSpans_id key, id]
  | .call callee args _ | .construct callee args _ => by
    rw [Expr.mapSpans, Expr.mapSpans_id callee, Expr.mapSpansAll_id args, id]
  | .arrow _ body _ => by rw [Expr.mapSpans, Body.mapSpans_id body, id]
  | .unary _ operand _ => by rw [Expr.mapSpans, Expr.mapSpans_id operand, id]
  | .binary _ left right _ | .logical _ left right _ => by
    rw [Expr.mapSpans, Expr.mapSpans_id left, Expr.mapSpans_id right, id]
  | .conditional test yes no _ => by
    rw [Expr.mapSpans, Expr.mapSpans_id test, Expr.mapSpans_id yes, Expr.mapSpans_id no, id]
  | .assign target _ value _ => by
    rw [Expr.mapSpans, Expr.mapSpans_id target, Expr.mapSpans_id value, id]

@[simp] theorem Expr.mapSpansAll_id : (exprs : List Expr) → Expr.mapSpansAll id exprs = exprs
  | [] => rfl
  | expr :: rest => by
    rw [Expr.mapSpansAll, Expr.mapSpans_id expr, Expr.mapSpansAll_id rest]

@[simp] theorem Expr.mapSpansUnder_id :
    (properties : List (String × Expr)) → Expr.mapSpansUnder id properties = properties
  | [] => rfl
  | (_, expr) :: rest => by
    rw [Expr.mapSpansUnder, Expr.mapSpans_id expr, Expr.mapSpansUnder_id rest]

@[simp] theorem Body.mapSpans_id : (body : Body) → body.mapSpans id = body
  | .expr value => by rw [Body.mapSpans, Expr.mapSpans_id value]
  | .block stmts => by rw [Body.mapSpans, Stmt.mapSpansAll_id stmts]

@[simp] theorem Stmt.mapSpans_id : (stmt : Stmt) → stmt.mapSpans id = stmt
  | .expr value _ | .throwing value _ | .declare _ _ (some value) _
  | .returning (some value) _ => by
    rw [Stmt.mapSpans, Expr.mapSpans_id value, id]
  | .declare _ _ none _ | .returning none _ => rfl
  | .branch test yes none _ => by
    rw [Stmt.mapSpans, Expr.mapSpans_id test, Stmt.mapSpansAll_id yes, id]
  | .branch test yes (some no) _ => by
    rw [Stmt.mapSpans, Expr.mapSpans_id test, Stmt.mapSpansAll_id yes, Stmt.mapSpansAll_id no, id]
  | .block stmts _ => by rw [Stmt.mapSpans, Stmt.mapSpansAll_id stmts, id]

@[simp] theorem Stmt.mapSpansAll_id : (stmts : List Stmt) → Stmt.mapSpansAll id stmts = stmts
  | [] => rfl
  | stmt :: rest => by
    rw [Stmt.mapSpansAll, Stmt.mapSpans_id stmt, Stmt.mapSpansAll_id rest]

end

/-! ### Heaps with other spans -/

/-- A function with other spans. -/
def Closure.mapSpans (f : Span → Span) (made : Closure) : Closure :=
  { made with body := made.body.mapSpans f }

/-- Something to call with other spans. -/
def Callable.mapSpans (f : Span → Span) : Callable → Callable
  | .closure made => .closure (made.mapSpans f)
  | .builtin function => .builtin function

/-- The contents of a cell with other spans. -/
def Cell.mapSpans (f : Span → Span) : {kind : CellKind} → Cell kind → Cell kind
  | .callable, callable => Callable.mapSpans f callable
  | .array, cell | .object, cell | .error, cell | .promise, cell | .frame, cell => cell

/-- A heap with other spans. -/
def Heap.mapSpans (f : Span → Span) (heap : Heap) : Heap :=
  { heap with callables := heap.callables.map (Callable.mapSpans f) }

/-- A machine with other spans. -/
def Machine.mapSpans (f : Span → Span) (m : Machine) : Machine :=
  ⟨m.heap.mapSpans f, m.depth⟩

@[simp] theorem Callable.mapSpans_id (callable : Callable) : callable.mapSpans id = callable := by
  cases callable with
  | closure made => rw [Callable.mapSpans, Closure.mapSpans, Body.mapSpans_id]
  | builtin function => rfl

@[simp] theorem Cell.mapSpans_id {kind : CellKind} (cell : Cell kind) :
    Cell.mapSpans id cell = cell := by
  cases kind with
  | callable => exact Callable.mapSpans_id cell
  | array | object | error | promise | frame => rfl

@[simp] theorem Callable.name_mapSpans (f : Span → Span) (callable : Callable) :
    (callable.mapSpans f).name = callable.name := by
  cases callable <;> rfl

/-- What is shown of a function has no spans in it. -/
@[simp] theorem Callable.text_mapSpans (f : Span → Span) (callable : Callable) :
    (callable.mapSpans f).text = callable.text := by
  rw [Callable.text, Callable.text, Callable.name_mapSpans]

/-- Only cells of functions have spans in them. -/
theorem Cell.mapSpans_of_ne (f : Span → Span) {kind : CellKind} (hkind : kind ≠ .callable)
    (cell : Cell kind) : Cell.mapSpans f cell = cell := by
  cases kind with
  | callable => exact absurd rfl hkind
  | array | object | error | promise | frame => rfl

namespace Heap

variable (f : Span → Span) (heap : Heap)

@[simp] theorem count_mapSpans (kind : CellKind) :
    (heap.mapSpans f).count kind = heap.count kind := by
  cases kind with
  | callable => exact Array.size_map
  | array | object | error | promise | frame => rfl

@[simp] theorem get_mapSpans {kind : CellKind} (ref : Ref kind) :
    (heap.mapSpans f).get ref = Cell.mapSpans f (heap.get ref) := by
  cases kind with
  | callable =>
    change (heap.callables.map (Callable.mapSpans f)).getD _ _ =
      Callable.mapSpans f (heap.callables.getD _ _)
    rw [Array.getD_eq_getD_getElem?, Array.getD_eq_getD_getElem?, Array.getElem?_map]
    cases heap.callables[ref.index]? <;> rfl
  | array | object | error | promise | frame => rfl

/-- A new cell gets other spans as all cells do. -/
theorem mapSpans_alloc {kind : CellKind} (cell : Cell kind) :
    ((heap.mapSpans f).alloc kind (Cell.mapSpans f cell)).2 =
      (heap.alloc kind cell).2.mapSpans f := by
  cases kind with
  | callable =>
    have hpushed : (heap.callables.map (Callable.mapSpans f)).push (Callable.mapSpans f cell) =
        (heap.callables.push cell).map (Callable.mapSpans f) := Array.map_push.symm
    exact congrArg (fun callables => { heap with callables }) hpushed
  | array | object | error | promise | frame => rfl

/-- Functions are never changed, so it does not matter whether other cells get other spans before
or after they are changed. -/
theorem mapSpans_modify {kind : CellKind} (hkind : kind ≠ .callable) (ref : Ref kind)
    (change : Cell kind → Cell kind) :
    (heap.mapSpans f).modify ref change = (heap.modify ref change).mapSpans f := by
  cases kind with
  | callable => exact absurd rfl hkind
  | array | object | error | promise | frame => rfl

end Heap

/-- Only a name becomes a name. -/
theorem Expr.exists_of_mapSpans_eq_ident {f : Span → Span} {expr : Expr} {name : String}
    {span : Span} (h : expr.mapSpans f = .ident name span) : ∃ span, expr = .ident name span := by
  cases expr with
  | ident other span =>
    injection h with hname
    exact ⟨span, by rw [hname]⟩
  | _ =>
    rw [Expr.mapSpans] at h
    cases h

/-- A callee is written in the same way. -/
@[simp] theorem Expr.calleeText_mapSpans (f : Span → Span) :
    (expr : Expr) → (expr.mapSpans f).calleeText = expr.calleeText
  | .member target _ _ | .index target _ _ | .call target _ _ => by
    simp only [Expr.mapSpans, Expr.calleeText, Expr.calleeText_mapSpans f target]
  | .number .. | .string .. | .bool .. | .null .. | .undefined .. | .ident .. | .array ..
  | .object .. | .construct .. | .arrow .. | .unary .. | .binary .. | .logical ..
  | .conditional .. | .assign .. => rfl

end Doctest.Script
