import Doctest.Proofs.Script.Containment
import Mathlib.Logic.Relation

/-!
# What evaluations keep

An evaluation keeps a closed heap closed, takes no cell away, leaves the cells that are apart as
they were and counts as many calls at its end as at its start. How it changes the heap is a path
of steps, and what it gives holds of the last heap. There is one rule for each way to put
evaluations together.
-/

namespace Doctest.Script

open Relation

/-- A signal that carries values of an area; only where it is allowed to does it return. -/
def Signal.Allowed (area : Place → Prop) (returns : Prop) : Signal → Prop
  | .raised value => value.Within area
  | .returned value => returns ∧ value.Within area
  | .exhausted => True

theorem Signal.Allowed.mono {area : Place → Prop} {returns more : Prop} (hmore : returns → more)
    {signal : Signal} (h : signal.Allowed area returns) : signal.Allowed area more := by
  cases signal with
  | raised | exhausted => exact h
  | returned => exact h.imp_left hmore

namespace Eval

variable {α β : Type}

/-- What there is to say about a run of an evaluation: `steps` are the changes it may make one by
one, `returns` is whether it may end by returning, and `result` is what it gives. -/
structure Kept (steps : Heap → Heap → Prop) (apart : Place → Prop) (returns : Prop)
    (result : Heap → α → Prop) (start : Machine) (after : Except Signal α × Machine) : Prop where
  grows : start.heap.Grows after.2.heap
  closed : after.2.heap.Closed apart
  same : ∀ {kind : CellKind} (ref : Ref kind), apart ref.place →
    after.2.heap.get ref = start.heap.get ref
  depth : after.2.depth = start.depth
  path : ReflTransGen steps start.heap after.2.heap
  found : match after.1 with
    | .ok a => result after.2.heap a
    | .error signal => signal.Allowed (after.2.heap.Has apart) returns

/-- An evaluation keeps what there is to keep from any closed heap on that has all cells of a
heap `base`. -/
def Keeps (steps : Heap → Heap → Prop) (apart : Place → Prop) (returns : Prop) (base : Heap)
    (result : Heap → α → Prop) (eval : Eval α) : Prop :=
  ∀ start : Machine, base.Grows start.heap → start.heap.Closed apart →
    Kept steps apart returns result start (eval start)

variable {steps : Heap → Heap → Prop} {apart : Place → Prop} {returns : Prop} {base : Heap}
  {result : Heap → α → Prop} {more : Heap → β → Prop}

/-- A run that changes nothing. -/
theorem Kept.silent {start : Machine} {found : Except Signal α}
    (hclosed : start.heap.Closed apart)
    (h : match found with
      | .ok a => result start.heap a
      | .error signal => signal.Allowed (start.heap.Has apart) returns) :
    Kept steps apart returns result start (found, start) :=
  ⟨.refl _, hclosed, fun _ _ => rfl, rfl, .refl, h⟩

/-- A run that makes one step, and what it leaves in the cells. -/
theorem Kept.of_step {f : Heap → α × Heap} {start : Machine}
    (hgrows : start.heap.Grows (f start.heap).2) (hclosed : start.heap.Closed apart)
    (hwithin : ∀ {kind : CellKind} (ref : Ref kind), ¬ apart ref.place →
      Cell.Within ((f start.heap).2.Has apart) ((f start.heap).2.get ref))
    (hsame : ∀ {kind : CellKind} (ref : Ref kind), apart ref.place →
      (f start.heap).2.get ref = start.heap.get ref)
    (hstep : steps start.heap (f start.heap).2)
    (hresult : result (f start.heap).2 (f start.heap).1) :
    Kept steps apart returns result start
      (.ok (f start.heap).1, ⟨(f start.heap).2, start.depth⟩) where
  grows := hgrows
  closed := ⟨hwithin, fun place h => Nat.lt_of_lt_of_le (hclosed.apart_lt place h) (hgrows _)⟩
  same := hsame
  depth := rfl
  path := .single hstep
  found := hresult

/-- Changing a cell, where the step is one that may be made there. -/
theorem Kept.change {kind : CellKind} {ref : Ref kind} {f : Cell kind → Cell kind} {start : Machine}
    (hclosed : start.heap.Closed apart) (hstep : steps start.heap (start.heap.modify ref f))
    (href : ¬ apart ref.place)
    (hf : ∀ cell, Cell.Within (start.heap.Has apart) cell →
      Cell.Within (start.heap.Has apart) (f cell)) :
    Kept steps apart returns (fun _ _ => True) start (Eval.change ref f start) := by
  have hgrows := start.heap.grows_modify ref f
  refine .of_step (f := fun heap => ((), heap.modify ref f)) hgrows hclosed ?_ ?_ hstep trivial
  · intro other found hfound
    have hold := hclosed.within found hfound
    by_cases hkind : other = kind
    · subst hkind
      rw [Heap.get_modify]
      split
      · exact (hf _ hold).mono hgrows.has
      · exact hold.mono hgrows.has
    · rw [Heap.get_modify_of_ne _ _ _ _ hkind]
      exact hold.mono hgrows.has
  · intro other found hfound
    refine Heap.get_modify_of_place_ne _ _ _ _ fun hplace => href ?_
    rwa [← hplace]

/-- Making a cell, where the step is one that may be made there. -/
theorem Kept.alloc {kind : CellKind} {cell : Cell kind} {start : Machine}
    (hclosed : start.heap.Closed apart) (hstep : steps start.heap (start.heap.alloc kind cell).2)
    (hcell : Cell.Within (start.heap.Has apart) cell) :
    Kept steps apart returns (fun heap ref => heap.Has apart ref.place) start
      (Eval.alloc kind cell start) := by
  have hgrows := start.heap.grows_alloc cell
  have hnew : ¬ apart ⟨kind, start.heap.count kind⟩ := fun h =>
    Nat.lt_irrefl _ (hclosed.apart_lt _ h)
  refine .of_step (f := (·.alloc kind cell)) hgrows hclosed ?_ ?_ hstep ?_
  · intro other ref href
    by_cases hplace : ref.place = ⟨kind, start.heap.count kind⟩
    · obtain ⟨index⟩ := ref
      obtain ⟨rfl, rfl⟩ := Place.mk.inj hplace
      rw [Heap.get_alloc, if_pos rfl]
      exact hcell.mono hgrows.has
    · rw [Heap.get_alloc_of_place_ne _ _ _ hplace]
      exact (hclosed.within ref href).mono hgrows.has
  · intro other ref href
    exact Heap.get_alloc_of_place_ne _ _ _ fun hplace => hnew (hplace ▸ href)
  · rw [Heap.alloc_fst]
    refine ⟨?_, hnew⟩
    change start.heap.count kind < (start.heap.alloc kind cell).2.count kind
    rw [Heap.count_alloc, if_pos rfl]
    exact Nat.lt_succ_self _

/-- One evaluation after the other: the second one runs where the first one gave something. -/
theorem bind_apply (x : Eval α) (f : α → Eval β) (start : Machine) :
    (x >>= f) start =
      match x start with
      | (.ok a, middle) => f a middle
      | (.error signal, middle) => (.error signal, middle) := by
  change (match x start with | (found, middle) => ExceptT.bindCont f found middle) = _
  rcases x start with ⟨_ | _, middle⟩ <;> rfl

theorem ofHeap?_apply (f : Heap → Option α) (start : Machine) :
    Eval.ofHeap? f start =
      match f start.heap with
      | some a => (.ok a, start)
      | none => (.error .exhausted, start) := by
  rw [Eval.ofHeap?, bind_apply, Eval.ofHeap]
  dsimp only
  cases f start.heap <;> rfl

theorem tryCatch_apply (x : Eval α) (handler : Signal → Eval α) (start : Machine) :
    (MonadExcept.tryCatch x handler : Eval α) start =
      match x start with
      | (.ok a, middle) => (.ok a, middle)
      | (.error signal, middle) => handler signal middle := by
  change ExceptT.tryCatch x handler start = _
  simp only [ExceptT.tryCatch, ExceptT.mk, Bind.bind, StateT.bind]
  rcases x start with ⟨_ | _, middle⟩ <;> rfl

/-- A run that goes on after another one. -/
theorem Kept.trans {start middle : Machine} {found : Except Signal α}
    {after : Except Signal β × Machine}
    (hfirst : Kept steps apart returns result start (found, middle))
    (hsecond : Kept steps apart returns more middle after) :
    Kept steps apart returns more start after where
  grows := hfirst.grows.trans hsecond.grows
  closed := hsecond.closed
  same := fun ref href => (hsecond.same ref href).trans (hfirst.same ref href)
  depth := hsecond.depth.trans hfirst.depth
  path := hfirst.path.trans hsecond.path
  found := hsecond.found

/-- One run after another, where it is known how the first one went. -/
theorem Kept.bind {x : Eval α} {f : α → Eval β} {start : Machine}
    (hx : Kept steps apart returns result start (x start))
    (hf : ∀ a middle, x start = (.ok a, middle) →
      Kept steps apart returns result start (.ok a, middle) →
      Kept steps apart returns more middle (f a middle)) :
    Kept steps apart returns more start ((x >>= f) start) := by
  rw [bind_apply]
  rcases hrun : x start with ⟨signal | a, middle⟩
  case error =>
    rw [hrun] at hx
    exact ⟨hx.grows, hx.closed, hx.same, hx.depth, hx.path, hx.found⟩
  case ok =>
    have hkept := hrun ▸ hx
    exact hkept.trans (hf a middle hrun hkept)

namespace Keeps

/-! ### Giving and reading -/

theorem pure {a : α} (h : ∀ heap, base.Grows heap → result heap a) :
    Keeps steps apart returns base result (Pure.pure a) :=
  fun _ hbase hclosed => .silent hclosed (h _ hbase)

theorem exhausted : Keeps steps apart returns base result (MonadExcept.throw Signal.exhausted) :=
  fun _ _ hclosed => .silent hclosed trivial

theorem raise {value : Value} (h : value.Of apart base) :
    Keeps steps apart returns base result (Eval.raise value) :=
  fun _ hbase hclosed => .silent hclosed (h.mono hbase.has)

theorem returned {α : Type} {result : Heap → α → Prop} {value : Value} (h : value.Of apart base) :
    Keeps steps apart True base result (MonadExcept.throw (Signal.returned value)) :=
  fun _ hbase hclosed => .silent hclosed ⟨trivial, h.mono hbase.has⟩

theorem ofHeap {f : Heap → α}
    (h : ∀ heap, base.Grows heap → heap.Closed apart → result heap (f heap)) :
    Keeps steps apart returns base result (Eval.ofHeap f) :=
  fun _ hbase hclosed => .silent hclosed (h _ hbase hclosed)

theorem ofHeap? {f : Heap → Option α}
    (h : ∀ heap a, base.Grows heap → heap.Closed apart → f heap = some a → result heap a) :
    Keeps steps apart returns base result (Eval.ofHeap? f) := by
  intro start hbase hclosed
  rw [ofHeap?_apply]
  cases hfound : f start.heap with
  | none => exact .silent hclosed trivial
  | some a => exact .silent hclosed (h _ a hbase hclosed hfound)

theorem read {kind : CellKind} {ref : Ref kind} (href : ¬ apart ref.place) :
    Keeps steps apart returns base (fun heap cell => Cell.Within (heap.Has apart) cell)
      (Eval.read ref) :=
  .ofHeap fun _ _ hclosed => hclosed.within ref href

/-! ### Putting evaluations together -/

theorem mono {weaker : Heap → α → Prop} {eval : Eval α}
    (h : Keeps steps apart returns base result eval)
    (hmono : ∀ heap a, base.Grows heap → result heap a → weaker heap a) :
    Keeps steps apart returns base weaker eval := by
  intro start hbase hclosed
  obtain ⟨hgrows, hlast, hsame, hdepth, hpath, hfound⟩ := h start hbase hclosed
  refine ⟨hgrows, hlast, hsame, hdepth, hpath, ?_⟩
  revert hfound
  cases (eval start).1 with
  | ok a => exact hmono _ a (hbase.trans hgrows)
  | error signal => exact id

/-- Where more steps and returning are allowed, no less is. -/
theorem allowing {wider : Heap → Heap → Prop} {may : Prop} {eval : Eval α}
    (h : Keeps steps apart returns base result eval)
    (hsteps : ∀ heap later, steps heap later → wider heap later) (hreturns : returns → may) :
    Keeps wider apart may base result eval := by
  intro start hbase hclosed
  obtain ⟨hgrows, hlast, hsame, hdepth, hpath, hfound⟩ := h start hbase hclosed
  refine ⟨hgrows, hlast, hsame, hdepth, ReflTransGen.mono hsteps _ _ hpath, ?_⟩
  revert hfound
  cases (eval start).1 with
  | ok a => exact id
  | error signal => exact Signal.Allowed.mono hreturns

theorem later {heap : Heap} {eval : Eval α} (h : Keeps steps apart returns base result eval)
    (hgrows : base.Grows heap) : Keeps steps apart returns heap result eval :=
  fun start hheap hclosed => h start (hgrows.trans hheap) hclosed

theorem bind {x : Eval α} {f : α → Eval β} (hx : Keeps steps apart returns base result x)
    (hf : ∀ heap a, base.Grows heap → result heap a →
      Keeps steps apart returns heap more (f a)) :
    Keeps steps apart returns base more (x >>= f) := by
  intro start hbase hclosed
  apply (hx start hbase hclosed).bind
  intro a middle hrun hkept
  exact hf middle.heap a (hbase.trans hkept.grows) hkept.found middle (.refl _) hkept.closed

/-- An evaluation of which only the changes count. -/
theorem seq {x : Eval α} {f : α → Eval β} (hx : Keeps steps apart returns base result x)
    (hf : ∀ a, Keeps steps apart returns base more (f a)) :
    Keeps steps apart returns base more (x >>= f) :=
  hx.bind fun _ a hgrows _ => (hf a).later hgrows

theorem map {eval : Eval α} {f : α → β} (h : Keeps steps apart returns base result eval)
    (hf : ∀ heap later a, base.Grows heap → heap.Grows later → result heap a →
      more later (f a)) :
    Keeps steps apart returns base more (f <$> eval) := by
  rw [map_eq_pure_bind]
  exact h.bind fun heap a hgrows ha => .pure fun later hlater => hf heap later a hgrows hlater ha

theorem outcome {eval : Eval Value}
    (h : Keeps steps apart returns base (fun heap value => value.Of apart heap) eval) :
    Keeps steps apart returns base
      (fun heap found =>
        match found with
        | .ok value => value.Of apart heap
        | .error reason => reason.Of apart heap)
      (Eval.outcome eval) := by
  intro start hbase hclosed
  have hkept := h start hbase hclosed
  unfold Eval.outcome
  revert hkept
  rcases eval start with ⟨signal | value, last⟩ <;>
    rintro ⟨hgrows, hlast, hsame, hdepth, hpath, hfound⟩
  case error => cases signal <;> exact ⟨hgrows, hlast, hsame, hdepth, hpath, hfound⟩
  case ok => exact ⟨hgrows, hlast, hsame, hdepth, hpath, hfound⟩

theorem returnedOr {eval : Eval Value}
    (h : Keeps steps apart True base (fun heap value => value.Of apart heap) eval) :
    Keeps steps apart returns base (fun heap value => value.Of apart heap)
      (Eval.returnedOr eval) := by
  intro start hbase hclosed
  have hkept := h start hbase hclosed
  unfold Eval.returnedOr
  revert hkept
  rcases eval start with ⟨signal | value, last⟩ <;>
    rintro ⟨hgrows, hlast, hsame, hdepth, hpath, hfound⟩
  case error =>
    cases signal with
    | returned => exact ⟨hgrows, hlast, hsame, hdepth, hpath, hfound.2⟩
    | raised | exhausted => exact ⟨hgrows, hlast, hsame, hdepth, hpath, hfound⟩
  case ok => exact ⟨hgrows, hlast, hsame, hdepth, hpath, hfound⟩

/-- Whatever an evaluation is stopped by, another one may take its place. -/
theorem tryCatch {eval : Eval α} {handler : Signal → Eval α} {may : Prop}
    (h : Keeps steps apart may base result eval)
    (hhandler : ∀ heap signal, base.Grows heap → signal.Allowed (heap.Has apart) may →
      Keeps steps apart returns heap result (handler signal)) :
    Keeps steps apart returns base result (MonadExcept.tryCatch eval handler) := by
  intro start hbase hclosed
  have hkept := h start hbase hclosed
  rw [tryCatch_apply]
  revert hkept
  rcases eval start with ⟨signal | a, middle⟩ <;> intro hkept
  case ok =>
    exact ⟨hkept.grows, hkept.closed, hkept.same, hkept.depth, hkept.path, hkept.found⟩
  case error =>
    have hcaught := hhandler middle.heap signal (hbase.trans hkept.grows) hkept.found
    have hlast := hcaught middle (.refl _) hkept.closed
    exact ⟨hkept.grows.trans hlast.grows, hlast.closed,
      fun ref href => (hlast.same ref href).trans (hkept.same ref href),
      hlast.depth.trans hkept.depth, hkept.path.trans hlast.path, hlast.found⟩

/-! ### Cells -/

theorem alloc {kind : CellKind} {cell : Cell kind}
    (hsteps : ∀ heap, steps heap (Heap.alloc heap kind cell).2)
    (hcell : ∀ heap, base.Grows heap → Cell.Within (heap.Has apart) cell) :
    Keeps steps apart returns base (fun heap ref => heap.Has apart ref.place)
      (Eval.alloc kind cell) :=
  fun _ hbase hclosed => .alloc hclosed (hsteps _) (hcell _ hbase)

theorem change {kind : CellKind} {ref : Ref kind} {f : Cell kind → Cell kind}
    (hsteps : ∀ heap, steps heap (Heap.modify heap ref f)) (href : ¬ apart ref.place)
    (hf : ∀ heap cell, base.Grows heap → Cell.Within (heap.Has apart) cell →
      Cell.Within (heap.Has apart) (f cell)) :
    Keeps steps apart returns base (fun _ _ => True) (Eval.change ref f) :=
  fun _ hbase hclosed => .change hclosed (hsteps _) href fun cell => hf _ cell hbase

/-! ### Lists -/

theorem mapM {f : α → Eval β} {as : List α} {good : Heap → β → Prop}
    (hf : ∀ a ∈ as, Keeps steps apart returns base good (f a))
    (hmono : ∀ heap later b, Heap.Grows heap later → good heap b → good later b) :
    Keeps steps apart returns base (fun heap found => ∀ b ∈ found, good heap b) (as.mapM f) := by
  induction as generalizing base with
  | nil => exact .pure fun _ _ b hb => by cases hb
  | cons a as ih =>
    rw [List.mapM_cons]
    refine .bind (hf a List.mem_cons_self) fun heap b hgrows hb => ?_
    refine .bind ((ih fun a hmem => hf a (List.mem_cons_of_mem _ hmem)).later hgrows)
      fun middle bs hmiddle hbs => .pure fun last hlast c hc => ?_
    rcases List.mem_cons.mp hc with rfl | hc
    · exact hmono _ _ _ (hmiddle.trans hlast) hb
    · exact hmono _ _ _ hlast (hbs c hc)

theorem forM {f : α → Eval PUnit} {as : List α} {known : Heap → PUnit → Prop}
    (hf : ∀ a ∈ as, Keeps steps apart returns base known (f a)) :
    Keeps steps apart returns base (fun _ _ => True) (as.forM f) := by
  induction as with
  | nil => exact .pure fun _ _ => trivial
  | cons a as ih =>
    refine .seq (hf a List.mem_cons_self) fun _ => ih fun b hmem => ?_
    exact hf b (List.mem_cons_of_mem _ hmem)

theorem forIn {f : α → PUnit → Eval (ForInStep PUnit)} {as : List α}
    {known : Heap → ForInStep PUnit → Prop}
    (hf : ∀ a ∈ as, Keeps steps apart returns base known (f a ⟨⟩)) :
    Keeps steps apart returns base (fun _ _ => True) (ForIn.forIn as ⟨⟩ f) := by
  induction as with
  | nil => exact .pure fun _ _ => trivial
  | cons a as ih =>
    rw [List.forIn_cons]
    refine .seq (hf a List.mem_cons_self) fun next => ?_
    cases next with
    | done => exact .pure fun _ _ => trivial
    | yield => exact ih fun a hmem => hf a (List.mem_cons_of_mem _ hmem)

/-- The items that are left are some of those that there were. -/
theorem filterM {f : α → Eval Bool} {as : List α} {known : Heap → Bool → Prop}
    (hf : ∀ a ∈ as, Keeps steps apart returns base known (f a)) :
    Keeps steps apart returns base (fun _ found => ∀ a ∈ found, a ∈ as) (as.filterM f) := by
  have haux (rest acc : List α) (hrest : ∀ a ∈ rest, a ∈ as) (hacc : ∀ a ∈ acc, a ∈ as) :
      Keeps steps apart returns base (fun _ found => ∀ a ∈ found, a ∈ as)
        (List.filterAuxM f rest acc) := by
    induction rest generalizing acc with
    | nil => exact .pure fun _ _ => hacc
    | cons a rest ih =>
      refine .seq (hf a (hrest a List.mem_cons_self)) fun holds => ?_
      refine ih _ (fun b hmem => hrest b (List.mem_cons_of_mem _ hmem)) ?_
      cases holds with
      | false => exact hacc
      | true =>
        rintro b (_ | ⟨_, hmem⟩)
        · exact hrest a List.mem_cons_self
        · exact hacc b hmem
  exact .bind (haux as [] (fun _ hmem => hmem) (by simp)) fun heap found _ hfound =>
    .pure fun _ _ a hmem => hfound a (List.mem_reverse.mp hmem)

/-- An item that is found is one that there was. -/
theorem findM? {f : α → Eval Bool} {as : List α} {known : Heap → Bool → Prop}
    (hf : ∀ a ∈ as, Keeps steps apart returns base known (f a)) :
    Keeps steps apart returns base (fun _ found => ∀ a ∈ found, a ∈ as) (as.findM? f) := by
  induction as with
  | nil => exact .pure fun _ _ a hmem => by cases hmem
  | cons a as ih =>
    refine .seq (hf a List.mem_cons_self) fun holds => ?_
    cases holds with
    | true => exact .pure fun _ _ b hmem => by cases hmem; exact List.mem_cons_self
    | false =>
      exact (ih fun a hmem => hf a (List.mem_cons_of_mem _ hmem)).mono
        fun _ _ _ hfound b hmem => List.mem_cons_of_mem _ (hfound b hmem)

theorem anyM {f : α → Eval Bool} {as : List α} {known : Heap → Bool → Prop}
    (hf : ∀ a ∈ as, Keeps steps apart returns base known (f a)) :
    Keeps steps apart returns base (fun _ _ => True) (as.anyM f) := by
  induction as with
  | nil => exact .pure fun _ _ => trivial
  | cons a as ih =>
    refine .seq (hf a List.mem_cons_self) fun holds => ?_
    cases holds with
    | true => exact .pure fun _ _ => trivial
    | false => exact ih fun a hmem => hf a (List.mem_cons_of_mem _ hmem)

theorem allM {f : α → Eval Bool} {as : List α} {known : Heap → Bool → Prop}
    (hf : ∀ a ∈ as, Keeps steps apart returns base known (f a)) :
    Keeps steps apart returns base (fun _ _ => True) (as.allM f) := by
  induction as with
  | nil => exact .pure fun _ _ => trivial
  | cons a as ih =>
    refine .seq (hf a List.mem_cons_self) fun holds => ?_
    cases holds with
    | true => exact ih fun a hmem => hf a (List.mem_cons_of_mem _ hmem)
    | false => exact .pure fun _ _ => trivial

theorem foldlM {f : β → α → Eval β} {as : List α} {init : β} {good : Heap → β → Prop}
    (hinit : ∀ heap, base.Grows heap → good heap init)
    (hf : ∀ heap b, ∀ a ∈ as, base.Grows heap → (∀ later, heap.Grows later → good later b) →
      Keeps steps apart returns heap good (f b a))
    (hmono : ∀ heap later b, Heap.Grows heap later → good heap b → good later b) :
    Keeps steps apart returns base good (as.foldlM f init) := by
  induction as generalizing base init with
  | nil => exact .pure hinit
  | cons a as ih =>
    rw [List.foldlM_cons]
    refine .bind (hf base init a List.mem_cons_self (.refl _) hinit) fun heap b hgrows hb => ?_
    exact ih (fun later hlater => hmono _ _ _ hlater hb)
      fun later b a hmem hlater => hf later b a (List.mem_cons_of_mem _ hmem) (hgrows.trans hlater)

end Keeps

end Eval

end Doctest.Script
