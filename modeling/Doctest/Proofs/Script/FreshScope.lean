import Doctest.Proofs.Script.Making
import Doctest.Script.Library.Globals

/-!
# Fresh scopes

A scope can be made in every machine. It has one frame, in which the two names of numbers are bound
to these, and it keeps them while cells are only added.
-/

namespace Doctest

namespace Script

/-! ### Evaluations that come to a result -/

namespace Eval

variable {α β : Type} {result : Heap → α → Prop} {more : Heap → β → Prop} {start : Machine}

/-- An evaluation gives something of which `result` says what it is in the last heap. Cells may be
changed, but none is taken away. -/
def Ends (result : Heap → α → Prop) (start : Machine) (x : Eval α) : Prop :=
  ∃ a last, x start = (.ok a, last) ∧ start.heap.Grows last.heap ∧ result last.heap a

theorem Makes.ends {x : Eval α} (h : Makes result start x) : Ends result start x := by
  obtain ⟨a, last, hrun, hext, -, ha⟩ := h
  exact ⟨a, last, hrun, hext.grows, ha⟩

namespace Ends

theorem pure {a : α} (h : result start.heap a) : Ends result start (Pure.pure a) :=
  (Makes.pure h).ends

theorem bind {x : Eval α} {f : α → Eval β} (hx : Ends result start x)
    (hf : ∀ a middle, start.heap.Grows middle.heap → result middle.heap a →
      Ends more middle (f a)) : Ends more start (x >>= f) := by
  obtain ⟨a, middle, hrun, hgrows, ha⟩ := hx
  obtain ⟨b, last, hrun', hgrows', hb⟩ := hf a middle hgrows ha
  refine ⟨b, last, ?_, hgrows.trans hgrows', hb⟩
  rw [bind_apply, hrun]
  exact hrun'

theorem change {kind : CellKind} {ref : Ref kind} {f : Cell kind → Cell kind}
    {result : Heap → Unit → Prop} (h : result (start.heap.modify ref f) ()) :
    Ends result start (Eval.change ref f) :=
  ⟨(), ⟨start.heap.modify ref f, start.depth⟩, rfl, start.heap.grows_modify ref f, h⟩

theorem alloc {kind : CellKind} (cell : Cell kind) :
    Ends (fun _ _ => True) start (Eval.alloc kind cell) :=
  (Makes.alloc trivial).ends

theorem newCallable (callable : Callable) :
    Ends (fun _ _ => True) start (Eval.newCallable callable) :=
  (alloc _).bind fun _ _ _ _ => .pure trivial

theorem define (scope : Scope) (name : String) (value : Value) (isMutable : Bool) :
    Ends (fun heap _ => heap = start.heap.modify scope.innermost
      (·.insert name ⟨value, isMutable⟩)) start (scope.define name value isMutable) :=
  .change rfl

theorem seen {x : Eval α} (hx : Ends result start x) : Ends (fun _ _ => True) start x := by
  obtain ⟨a, last, hrun, hgrows, -⟩ := hx
  exact ⟨a, last, hrun, hgrows, trivial⟩

theorem mapM {f : α → Eval β} {as : List α}
    (hf : ∀ a start, Ends (fun _ _ => True) start (f a)) :
    Ends (fun _ _ => True) start (as.mapM f) := by
  induction as generalizing start with
  | nil => exact .pure trivial
  | cons a as ih =>
    rw [List.mapM_cons]
    exact (hf a start).bind fun _ middle _ _ => ih.bind fun _ _ _ _ => .pure trivial

theorem forIn {f : α → Eval (ForInStep PUnit)} {as : List α}
    (hf : ∀ a start, Ends (fun _ step => step = .yield PUnit.unit) start (f a)) :
    Ends (fun _ _ => True) start (ForIn.forIn as PUnit.unit fun a _ => f a) := by
  induction as generalizing start with
  | nil => exact .pure trivial
  | cons a as ih =>
    rw [List.forIn_cons]
    refine (hf a start).bind fun _ middle _ hstep => ?_
    rw [hstep]
    exact ih

end Ends

end Eval

/-! ### Scopes with the names of numbers -/

/-- A scope of one frame, in which the two names of numbers have their values. -/
structure Scope.IsFresh (scope : Scope) (heap : Heap) : Prop where
  inner : scope.inner = []
  inside : scope.outermost.index < heap.count .frame
  nan : ((heap.get scope.outermost).get? "NaN").map Binding.value = some (.number (0.0 / 0.0))
  infinity :
    ((heap.get scope.outermost).get? "Infinity").map Binding.value = some (.number (1.0 / 0.0))

theorem Scope.IsFresh.mono {scope : Scope} {heap later : Heap} (h : scope.IsFresh heap)
    (hext : heap.Extends later) : scope.IsFresh later := by
  have hframe := hext.get_eq scope.outermost h.inside
  obtain ⟨hinner, hinside, hnan, hinfinity⟩ := h
  rw [← hframe] at hnan hinfinity
  exact ⟨hinner, Nat.lt_of_lt_of_le hinside (hext.grows _), hnan, hinfinity⟩

/-- A name of a fresh scope has the value that the frame binds it to. -/
theorem Scope.IsFresh.value_makes {scope : Scope} {start : Machine} (h : scope.IsFresh start.heap)
    {name : String} {value : Value}
    (hname : ((start.heap.get scope.outermost).get? name).map Binding.value = some value) :
    Eval.Makes (fun _ found => found = value) start (scope.value name) := by
  have hget : scope.get? start.heap name = some value := by
    obtain ⟨binding, hbinding, rfl⟩ := Option.map_eq_some_iff.mp hname
    rw [Scope.get?, Scope.binder?, Scope.chain, h.inner, List.nil_append, Heap.binder?, hbinding]
    rfl
  have hfound : Eval.Makes (fun _ value? => value? = some value) start
      (Eval.ofHeap (scope.get? · name)) := .ofHeap hget
  refine hfound.bind fun value? middle _ heq => ?_
  rw [heq]
  exact .pure rfl

theorem newNamespace_ends (constants : List (String × Value)) (functions : List Builtin)
    (start : Machine) :
    Eval.Ends (fun _ _ => True) start (Library.newNamespace constants functions) := by
  unfold Library.newNamespace
  refine (Eval.Ends.mapM fun function start => ?_).bind fun _ _ _ _ => ?_
  · exact (Eval.Ends.newCallable _).bind fun _ _ _ _ => .pure trivial
  · exact (Eval.Ends.alloc _).bind fun _ _ _ _ => .pure trivial

/-- What is bound last in a new scope are the names of numbers. -/
theorem newScope_ends (start : Machine) :
    Eval.Ends (fun heap scope => scope.IsFresh heap) start Library.newScope := by
  have hframe : Eval.Makes (fun heap ref => ref.index < heap.count .frame) start
      (Eval.alloc .frame Dict.empty) := by
    refine .alloc ?_
    rw [Heap.alloc_fst, Heap.count_alloc, if_pos rfl]
    exact Nat.lt_succ_self _
  rw [Library.newScope]
  refine Eval.Ends.bind hframe.ends fun frame made _ hinside => ?_
  have hfunction (function : Builtin) (start : Machine) :
      Eval.Ends (fun _ step => step = .yield PUnit.unit) start (do
        Scope.define ⟨[], frame⟩ function.name (← Eval.newCallable (.builtin function)) true
        return ForInStep.yield PUnit.unit) := by
    refine (Eval.Ends.newCallable _).bind fun value middle _ _ => ?_
    exact (Eval.Ends.define _ _ value true).bind fun _ _ _ _ => .pure rfl
  refine (Eval.Ends.forIn hfunction).bind fun _ filled hfilled _ => ?_
  refine (newNamespace_ends _ _ filled).bind fun math middle hmiddle _ => ?_
  refine (Eval.Ends.define _ _ math true).bind fun _ middle' hmiddle' _ => ?_
  refine (newNamespace_ends _ _ middle').bind fun json later hlater _ => ?_
  refine (Eval.Ends.define _ _ json true).bind fun _ last hlast _ => ?_
  have hgrows := hfilled.trans (hmiddle.trans (hmiddle'.trans (hlater.trans hlast)))
  have hlt : frame.index < last.heap.count .frame := Nat.lt_of_lt_of_le hinside (hgrows .frame)
  refine (Eval.Ends.define _ _ _ _).bind fun _ named _ hnamed => ?_
  refine (Eval.Ends.define _ _ _ _).bind fun _ done _ hdone => .pure ?_
  have hlt' : frame.index < named.heap.count .frame := by
    rw [hnamed, Heap.count_modify]
    exact hlt
  have hframe : done.heap.get frame = ((last.heap.get frame).insert "NaN" ⟨.number (0.0 / 0.0),
      false⟩).insert "Infinity" ⟨.number (1.0 / 0.0), false⟩ := by
    rw [hdone, Heap.get_modify, if_pos ⟨rfl, hlt'⟩, hnamed, Heap.get_modify, if_pos ⟨rfl, hlt⟩]
  refine ⟨rfl, ?_, ?_, ?_⟩
  · rw [hdone, Heap.count_modify]
    exact hlt'
  · rw [hframe, Dict.get?_insert_of_ne _ _ (by decide), Dict.get?_insert]
    rfl
  · rw [hframe, Dict.get?_insert]
    rfl

end Script

end Doctest
