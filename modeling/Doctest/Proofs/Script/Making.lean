import Doctest.Proofs.Script.Data
import Doctest.Proofs.Script.Keeping.Rules
import Doctest.Script.Evaluate

/-!
# Evaluations that make values

An evaluation that comes to a result, and on its way only adds cells. There is one rule for each
way to put such evaluations together. A script that is one expression comes to what that comes to.
-/

namespace Doctest.Script.Eval

variable {α β : Type} {result : Heap → α → Prop} {more : Heap → β → Prop} {start : Machine}

/-- An evaluation gives something of which `result` says what it is in the last heap; to the heap
it adds cells at most. -/
def Makes (result : Heap → α → Prop) (start : Machine) (x : Eval α) : Prop :=
  ∃ a last, x start = (.ok a, last) ∧ start.heap.Extends last.heap ∧ last.depth = start.depth ∧
    result last.heap a

namespace Makes

theorem pure {a : α} (h : result start.heap a) : Makes result start (Pure.pure a) :=
  ⟨a, start, rfl, .refl _, rfl, h⟩

theorem mono {wider : Heap → α → Prop} {x : Eval α} (hx : Makes result start x)
    (h : ∀ last, start.heap.Extends last → ∀ a, result last a → wider last a) :
    Makes wider start x := by
  obtain ⟨a, last, hrun, hextends, hdepth, ha⟩ := hx
  exact ⟨a, last, hrun, hextends, hdepth, h _ hextends a ha⟩

theorem bind {x : Eval α} {f : α → Eval β} (hx : Makes result start x)
    (hf : ∀ a middle, start.heap.Extends middle.heap → result middle.heap a →
      Makes more middle (f a)) : Makes more start (x >>= f) := by
  obtain ⟨a, middle, hrun, hextends, hdepth, ha⟩ := hx
  obtain ⟨b, last, hrun', hextends', hdepth', hb⟩ := hf a middle hextends ha
  refine ⟨b, last, ?_, hextends.trans hextends', hdepth'.trans hdepth, hb⟩
  rw [bind_apply, hrun]
  exact hrun'

theorem ofHeap {f : Heap → α} (h : result start.heap (f start.heap)) :
    Makes result start (Eval.ofHeap f) :=
  ⟨f start.heap, start, rfl, .refl _, rfl, h⟩

theorem ofHeap? {f : Heap → Option α} {a : α} (hf : f start.heap = some a)
    (h : result start.heap a) : Makes result start (Eval.ofHeap? f) := by
  refine ⟨a, start, ?_, .refl _, rfl, h⟩
  rw [ofHeap?_apply, hf]

theorem alloc {kind : CellKind} {result : Heap → Ref kind → Prop} {cell : Cell kind}
    (h : result (start.heap.alloc kind cell).2 (start.heap.alloc kind cell).1) :
    Makes result start (Eval.alloc kind cell) :=
  ⟨_, ⟨(start.heap.alloc kind cell).2, start.depth⟩, rfl, start.heap.extends_alloc cell, rfl, h⟩

/-- Of each of the values that are made it is known for which item that was. -/
theorem mapM {f : α → Eval β} {as : List α} {good : α → Heap → β → Prop}
    (hf : ∀ a ∈ as, ∀ middle, Makes (good a) middle (f a))
    (hmono : ∀ a heap later b, Heap.Extends heap later → good a heap b → good a later b) :
    Makes (fun heap bs => ∀ b ∈ bs, ∃ a ∈ as, good a heap b) start (as.mapM f) := by
  induction as generalizing start with
  | nil => exact .pure fun _ hmem => by cases hmem
  | cons a as ih =>
    rw [List.forall_mem_cons] at hf
    rw [List.mapM_cons]
    refine (hf.1 start).bind fun b middle _ hb => ?_
    refine (ih hf.2).bind fun bs last hlast hbs => .pure fun c hmem => ?_
    rcases List.mem_cons.mp hmem with rfl | hmem
    · exact ⟨a, List.mem_cons_self, hmono _ _ _ _ hlast hb⟩
    · obtain ⟨other, hother, hc⟩ := hbs c hmem
      exact ⟨other, List.mem_cons_of_mem _ hother, hc⟩

/-- A new array has its items. -/
theorem newArrayOf (items : Array Value) :
    Makes (fun heap found => ∃ ref : Ref .array, found = .array ref ∧
      ref.index < heap.count .array ∧ heap.get ref = items) start (Eval.newArray items) := by
  have hmade : Makes (fun heap (ref : Ref .array) => ref.index < heap.count .array ∧
      heap.get ref = items) start (Eval.alloc .array items) := by
    refine .alloc ?_
    rw [Heap.alloc_fst, Heap.get_alloc, if_pos rfl, Heap.count_alloc, if_pos rfl]
    exact ⟨Nat.lt_succ_self _, rfl⟩
  exact hmade.bind fun ref _ _ hmade => .pure ⟨ref, rfl, hmade⟩

/-- A new array holds what its items hold. -/
theorem newArray {items : List Datum} {values : Array Value}
    (h : start.heap.HoldsAll items values.toList) :
    Makes (fun heap => heap.Holds (.array items)) start (Eval.newArray values) := by
  have hmade : Makes (fun heap ref => heap.Holds (.array items) (.array ref)) start
      (Eval.alloc .array values) := .alloc h.alloc
  exact hmade.bind fun _ _ _ hholds => .pure hholds

/-- A new object holds what its properties hold. -/
theorem newObject {properties : List (String × Datum)} {values : Dict Value}
    (h : start.heap.HoldsUnder properties values.entries) :
    Makes (fun heap => heap.Holds (.object properties)) start (Eval.newObject values) := by
  have hmade : Makes (fun heap ref => heap.Holds (.object properties) (.object ref)) start
      (Eval.alloc .object values) := .alloc h.alloc
  exact hmade.bind fun _ _ _ hholds => .pure hholds

end Makes

end Doctest.Script.Eval

namespace Doctest.Script

theorem textWithin_of_not_array {heap : Heap} {value : Value} (h : ∀ ref, value ≠ .array ref)
    (levels : Nat) : textWithin heap levels value = some (heap.plainText value) := by
  cases value with
  | array ref => exact absurd rfl (h ref)
  | _ => cases levels <;> rfl

theorem Heap.text?_of_not_array {heap : Heap} {value : Value} (h : ∀ ref, value ≠ .array ref) :
    heap.text? value = some (heap.plainText value) :=
  textWithin_of_not_array h _

namespace Eval

/-- The text of a string is itself. -/
theorem text_string (s : String) : text (.string s) = Pure.pure s := by
  funext machine
  rw [text, ofHeap?_apply, Heap.text?_of_not_array fun _ => Value.noConfusion]
  rfl

theorem text_number (x : Float) : text (.number x) = Pure.pure (Number.text x) := by
  funext machine
  rw [text, ofHeap?_apply, Heap.text?_of_not_array fun _ => Value.noConfusion]
  rfl

end Eval

/-! ### Scripts of one expression -/

/-- A source of one expression gives what the expression gives. -/
theorem runSource_expr_iff {code : String} {e : Expr} {span : Span}
    (hparse : parse code = .ok [.expr e span]) (invoke : Invoke) (scope : Scope)
    {start last : Machine} {value : Value} :
    runSource invoke scope code start = (.ok value, last) ↔
      evalExpr invoke scope e start = (.ok value, last) := by
  rw [runSource, hparse]
  dsimp only
  rw [runProgram, Eval.bind_apply, Eval.tryCatch_apply, Eval.bind_apply, execStmts,
    Eval.bind_apply, execStmt, Eval.bind_apply]
  rcases evalExpr invoke scope e start with ⟨signal | found, machine⟩
  · cases signal <;> constructor <;> intro h <;> cases h
  · exact Iff.rfl

end Doctest.Script
