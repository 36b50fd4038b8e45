import Doctest.Proofs.Script.Keeping.Rules
import Doctest.Proofs.Script.Pairing.Heaps

/-!
# Two evaluations alongside each other

Two evaluations are started on machines that are the same in some respect, and give the same and
leave machines that are the same in that respect. What that respect is stays open: a pairing says
which machines count as the same, whether the first evaluation may be cut off where the second one
goes on, what is known where both come to no end, whether they may end by returning, and which spans
the second one has in the place of those of the first. There is one rule for each way to put
evaluations together.
-/

namespace Doctest.Script

/-- How two evaluations go alongside each other. -/
structure Pairing where
  /-- The machines that count as the same. -/
  same : Machine → Machine → Prop
  /-- Whether the first evaluation may be cut off where the second one goes on. -/
  cuts : Prop
  /-- What holds of the first machine where neither evaluation goes on. -/
  stuck : Machine → Prop
  /-- Whether both evaluations may end by returning. -/
  returns : Prop := False
  /-- The spans of the second evaluation, given those of the first. -/
  spans : Span → Span := id

/-- What evaluations rely on: machines that are the same differ in promises and spans only and stay
the same when something is done to both. Scripts see whether a promise waits to be resolved, and
they see what is shown of it. -/
structure Pairing.Lawful (p : Pairing) : Prop where
  resembles : ∀ {m n : Machine}, p.same m n → m.heap.Resembles p.spans n.heap
  waits : ∀ {m n : Machine}, p.same m n → ∀ ref : Ref .promise,
    m.heap.get ref = .pending .unresolved ↔ n.heap.get ref = .pending .unresolved
  inspect : ∀ {m n : Machine}, p.same m n → ∀ value, m.heap.inspect value = n.heap.inspect value
  alloc : ∀ {m n : Machine}, p.same m n → ∀ {kind : CellKind} (cell : Cell kind),
    p.same ⟨(m.heap.alloc kind cell).2, m.depth⟩
      ⟨(n.heap.alloc kind (Cell.mapSpans p.spans cell)).2, n.depth⟩
  change : ∀ {m n : Machine}, p.same m n → ∀ {kind : CellKind} (ref : Ref kind)
    (f : Cell kind → Cell kind), kind ≠ .promise ∧ kind ≠ .callable →
    p.same ⟨m.heap.modify ref f, m.depth⟩ ⟨n.heap.modify ref f, n.depth⟩
  resolve : ∀ {m n : Machine}, p.same m n → ∀ (ref : Ref .promise) (state : PromiseState),
    m.heap.get ref = .pending .unresolved →
    p.same ⟨m.heap.modify ref fun _ => state, m.depth⟩ ⟨n.heap.modify ref fun _ => state, n.depth⟩
  endless : ∀ {m n : Machine}, p.same m n → m.heap.Endless → p.stuck m

namespace Pairing

variable {α β : Type} {p : Pairing}

/-- What a signal with which both evaluations stop tells of the first machine. -/
def Admits (p : Pairing) (signal : Signal) (last : Machine) : Prop :=
  match signal with
  | .raised _ => True
  | .returned _ => p.returns
  | .exhausted => p.stuck last

/-- Two ends of evaluations that go alongside each other. -/
def Alongside (p : Pairing) (first second : Except Signal α × Machine) : Prop :=
  (p.cuts ∧ first.1 = .error .exhausted) ∨
    (first.1 = second.1 ∧ p.same first.2 second.2 ∧
      ∀ signal, first.1 = .error signal → p.Admits signal first.2)

/-- An evaluation goes alongside another one from machines that are the same. -/
def Follows (p : Pairing) (x y : Eval α) : Prop :=
  ∀ m n, p.same m n → p.Alongside (x m) (y n)

/-- An evaluation goes alongside itself. -/
abbrev Keeps (p : Pairing) (x : Eval α) : Prop :=
  p.Follows x x

/-- The same pairing, where it is said anew whether evaluations may end by returning. -/
abbrev returning (p : Pairing) (returns : Prop) : Pairing :=
  { p with returns }

theorem Lawful.returning (hp : p.Lawful) (returns : Prop) : (p.returning returns).Lawful :=
  ⟨hp.resembles, hp.waits, hp.inspect, hp.alloc, hp.change, hp.resolve, hp.endless⟩

theorem Follows.returning {returns : Prop} (h : p.returns → returns) {x y : Eval α}
    (hxy : p.Follows x y) : (p.returning returns).Follows x y := by
  intro m n hsame
  rcases hxy m n hsame with hcut | ⟨hfound, hlast, hadmits⟩
  · exact .inl hcut
  · refine .inr ⟨hfound, hlast, fun signal hsignal => ?_⟩
    have hadmitted := hadmits signal hsignal
    cases signal with
    | raised | exhausted => exact hadmitted
    | returned => exact h hadmitted

/-! ### Giving and reading -/

/-- Both evaluations give the same on machines that are the same. -/
theorem Alongside.ok {m n : Machine} {a : α} (h : p.same m n) :
    p.Alongside (.ok a, m) (.ok a, n) :=
  .inr ⟨rfl, h, nofun⟩

/-- Both evaluations stop with the same signal on machines that are the same. -/
theorem Alongside.error {m n : Machine} {signal : Signal} (h : p.same m n)
    (hadmits : p.Admits signal m) :
    p.Alongside ((.error signal : Except Signal α), m) (.error signal, n) := by
  refine .inr ⟨rfl, h, ?_⟩
  rintro _ ⟨⟩
  exact hadmits

theorem pure (a : α) : p.Keeps (Pure.pure a) :=
  fun _ _ h => .ok h

theorem raise (value : Value) : p.Keeps (Eval.raise value : Eval α) :=
  fun _ _ h => .error h trivial

theorem returned (hreturns : p.returns) (value : Value) :
    p.Keeps (throw (.returned value) : Eval α) :=
  fun _ _ h => .error h hreturns

/-- An evaluation that is cut off goes alongside any other one, where it may be. -/
theorem exhausted (hcuts : p.cuts) (y : Eval α) : p.Follows (throw .exhausted) y :=
  fun _ _ _ => .inl ⟨hcuts, rfl⟩

/-- What functions that tell the same of heaps that are the same tell of them. -/
theorem ofHeap {f g : Heap → α} (h : ∀ m n, p.same m n → f m.heap = g n.heap) :
    p.Follows (Eval.ofHeap f) (Eval.ofHeap g) := by
  intro m n hsame
  have hfound : (Except.ok (f m.heap) : Except Signal α) = .ok (g n.heap) := by rw [h m n hsame]
  exact .inr ⟨hfound, hsame, nofun⟩

theorem ofHeap? (hp : p.Lawful) {f : Heap → Option α}
    (hf : ∀ heap other, Heap.Resembles p.spans heap other → f heap = f other)
    (hend : ∀ heap, f heap = none → heap.Endless) : p.Keeps (Eval.ofHeap? f) := by
  intro m n hsame
  rw [Eval.ofHeap?_apply, Eval.ofHeap?_apply, ← hf _ _ (hp.resembles hsame)]
  cases hfound : f m.heap with
  | none => exact .error hsame (hp.endless hsame (hend _ hfound))
  | some a => exact .ok hsame

theorem read (hp : p.Lawful) {kind : CellKind} (ref : Ref kind)
    (hkind : kind ≠ .promise ∧ kind ≠ .callable) : p.Keeps (Eval.read ref) :=
  ofHeap fun _ _ hsame => (hp.resembles hsame).get_eq ref hkind

/-! ### Putting evaluations together -/

/-- One end of two evaluations after the other. -/
theorem Alongside.bind {x y : Eval α} {f g : α → Eval β} {m n : Machine}
    (hx : p.Alongside (x m) (y n))
    (hf : ∀ a last other, x m = (.ok a, last) → y n = (.ok a, other) → p.same last other →
      p.Alongside (f a last) (g a other)) :
    p.Alongside ((x >>= f) m) ((y >>= g) n) := by
  rw [Eval.bind_apply, Eval.bind_apply]
  rcases hfirst : x m with ⟨found, last⟩
  rcases hsecond : y n with ⟨found', other⟩
  rw [hfirst, hsecond] at hx
  rcases hx with ⟨hcuts, hfound⟩ | ⟨hfound, hsame, hadmits⟩
  · dsimp only at hfound
    subst hfound
    exact .inl ⟨hcuts, rfl⟩
  · dsimp only at hfound hsame hadmits
    subst hfound
    cases found with
    | ok a => exact hf a last other hfirst hsecond hsame
    | error signal => exact .error hsame (hadmits signal rfl)

theorem bind {x y : Eval α} {f g : α → Eval β} (hx : p.Follows x y)
    (hf : ∀ a, p.Follows (f a) (g a)) : p.Follows (x >>= f) (y >>= g) := by
  intro m n hsame
  exact (hx m n hsame).bind fun a last other _ _ hlast => hf a last other hlast

theorem map {x y : Eval α} {f : α → β} (hx : p.Follows x y) : p.Follows (f <$> x) (f <$> y) := by
  rw [map_eq_pure_bind, map_eq_pure_bind]
  exact bind hx fun a => pure (f a)

/-- Where both evaluations are changed in the same way into others, their ends are still alongside
each other if being cut off stays what it is. -/
theorem Alongside.convert {returns : Prop} {first second : Except Signal α × Machine}
    {f : Except Signal α → Except Signal β} (h : (p.returning returns).Alongside first second)
    (hf : f (.error .exhausted) = .error .exhausted)
    (honly : ∀ found signal last, f found = .error signal →
      (∀ signal, found = .error signal → (p.returning returns).Admits signal last) →
      p.Admits signal last) :
    p.Alongside (f first.1, first.2) (f second.1, second.2) := by
  rcases h with ⟨hcuts, hfound⟩ | ⟨hfound, hsame, hadmits⟩
  · exact .inl ⟨hcuts, by rw [hfound, hf]⟩
  · exact .inr ⟨by rw [hfound], hsame, fun signal hsignal => honly _ signal _ hsignal hadmits⟩

/-- What an evaluation gives or raises is given. -/
def outcomeOf : Except Signal Value → Except Signal (Except Value Value)
  | .ok value => .ok (.ok value)
  | .error (.raised reason) => .ok (.error reason)
  | .error (.returned value) => .error (.returned value)
  | .error .exhausted => .error .exhausted

/-- What an evaluation returns is given. -/
def givenOf : Except Signal Value → Except Signal Value
  | .error (.returned value) => .ok value
  | found => found

theorem outcome {x y : Eval Value} (h : p.Follows x y) :
    p.Follows (Eval.outcome x) (Eval.outcome y) := by
  have hrun (z : Eval Value) (start : Machine) :
      Eval.outcome z start = (outcomeOf (z start).1, (z start).2) := by
    unfold Eval.outcome
    rcases z start with ⟨(_ | _ | _) | _, last⟩ <;> rfl
  intro m n hsame
  rw [hrun, hrun]
  refine (h m n hsame).convert rfl fun found signal last hfound hadmits => ?_
  rcases found with (_ | _ | _) | _ <;> cases hfound <;> exact hadmits _ rfl

/-- What is done to find out what is given may end by returning. -/
theorem returnedOr {returns : Prop} {x y : Eval Value} (h : (p.returning returns).Follows x y) :
    p.Follows (Eval.returnedOr x) (Eval.returnedOr y) := by
  have hrun (z : Eval Value) (start : Machine) :
      Eval.returnedOr z start = (givenOf (z start).1, (z start).2) := by
    unfold Eval.returnedOr
    rcases z start with ⟨(_ | _ | _) | _, last⟩ <;> rfl
  intro m n hsame
  rw [hrun, hrun]
  refine (h m n hsame).convert rfl fun found signal last hfound hadmits => ?_
  rcases found with (_ | _ | _) | _ <;> cases hfound <;> exact hadmits _ rfl

/-- Whatever stops two evaluations, others may take their place; those that are cut off stay so. -/
theorem tryCatch {returns : Prop} {x y : Eval α} {handler handler' : Signal → Eval α}
    (h : (p.returning returns).Follows x y)
    (hhandler : ∀ signal, signal ≠ .exhausted → p.Follows (handler signal) (handler' signal))
    (hcut : handler .exhausted = throw .exhausted)
    (hcut' : handler' .exhausted = throw .exhausted) :
    p.Follows (MonadExcept.tryCatch x handler) (MonadExcept.tryCatch y handler') := by
  intro m n hsame
  have hends := h m n hsame
  rw [Eval.tryCatch_apply, Eval.tryCatch_apply]
  rcases hfirst : x m with ⟨found, last⟩
  rcases hsecond : y n with ⟨found', other⟩
  rw [hfirst, hsecond] at hends
  rcases hends with ⟨hcuts, hfound⟩ | ⟨hfound, hlast, hadmits⟩
  · dsimp only at hfound
    subst hfound
    dsimp only
    rw [hcut]
    exact .inl ⟨hcuts, rfl⟩
  · dsimp only at hfound hlast hadmits
    subst hfound
    cases found with
    | ok a => exact .ok hlast
    | error signal =>
      cases signal with
      | raised reason => exact hhandler (.raised reason) nofun last other hlast
      | returned value => exact hhandler (.returned value) nofun last other hlast
      | exhausted =>
        dsimp only
        rw [hcut, hcut']
        exact .error hlast (hadmits .exhausted rfl)

/-! ### Cells -/

theorem alloc (hp : p.Lawful) (kind : CellKind) (cell : Cell kind) :
    p.Follows (Eval.alloc kind cell) (Eval.alloc kind (Cell.mapSpans p.spans cell)) := by
  intro m n hsame
  have hcell : (m.heap.alloc kind cell).1 =
      (n.heap.alloc kind (Cell.mapSpans p.spans cell)).1 := by
    rw [Heap.alloc_fst, Heap.alloc_fst, (hp.resembles hsame).count]
  have hfound : (Except.ok (m.heap.alloc kind cell).1 : Except Signal (Ref kind)) =
      .ok (n.heap.alloc kind (Cell.mapSpans p.spans cell)).1 := by rw [hcell]
  exact .inr ⟨hfound, hp.alloc hsame cell, nofun⟩

/-- The second evaluation finds a function with other spans. -/
theorem bindCallable (hp : p.Lawful) (ref : Ref .callable) {f g : Callable → Eval α}
    (hf : ∀ callable, p.Follows (f callable) (g (callable.mapSpans p.spans))) :
    p.Follows (Eval.read ref >>= f) (Eval.read ref >>= g) := by
  intro m n hsame
  change p.Alongside (f (m.heap.get ref) m) (g (n.heap.get ref) n)
  rw [(hp.resembles hsame).get ref (by decide)]
  exact hf _ m n hsame

theorem change (hp : p.Lawful) {kind : CellKind} (ref : Ref kind) (f : Cell kind → Cell kind)
    (hkind : kind ≠ .promise ∧ kind ≠ .callable) : p.Keeps (Eval.change ref f) :=
  fun _ _ hsame => .inr ⟨rfl, hp.change hsame ref f hkind, nofun⟩

/-! ### Lists -/

theorem mapM {f g : α → Eval β} (hf : ∀ a, p.Follows (f a) (g a)) (as : List α) :
    p.Follows (as.mapM f) (as.mapM g) := by
  induction as with
  | nil => exact pure _
  | cons a as ih =>
    rw [List.mapM_cons, List.mapM_cons]
    exact bind (hf a) fun b => bind ih fun bs => pure _

theorem forM {f g : α → Eval PUnit} (hf : ∀ a, p.Follows (f a) (g a)) (as : List α) :
    p.Follows (as.forM f) (as.forM g) := by
  induction as with
  | nil => exact pure _
  | cons a as ih => exact bind (hf a) fun _ => ih

theorem filterM {f g : α → Eval Bool} (hf : ∀ a, p.Follows (f a) (g a)) (as : List α) :
    p.Follows (as.filterM f) (as.filterM g) := by
  have haux (rest acc : List α) :
      p.Follows (List.filterAuxM f rest acc) (List.filterAuxM g rest acc) := by
    induction rest generalizing acc with
    | nil => exact pure _
    | cons a rest ih => exact bind (hf a) fun holds => ih _
  exact bind (haux as []) fun found => pure _

theorem findM? {f g : α → Eval Bool} (hf : ∀ a, p.Follows (f a) (g a)) (as : List α) :
    p.Follows (as.findM? f) (as.findM? g) := by
  induction as with
  | nil => exact pure _
  | cons a as ih =>
    refine bind (hf a) fun holds => ?_
    cases holds with
    | true => exact pure _
    | false => exact ih

theorem anyM {f g : α → Eval Bool} (hf : ∀ a, p.Follows (f a) (g a)) (as : List α) :
    p.Follows (as.anyM f) (as.anyM g) := by
  induction as with
  | nil => exact pure _
  | cons a as ih =>
    refine bind (hf a) fun holds => ?_
    cases holds with
    | true => exact pure _
    | false => exact ih

theorem allM {f g : α → Eval Bool} (hf : ∀ a, p.Follows (f a) (g a)) (as : List α) :
    p.Follows (as.allM f) (as.allM g) := by
  induction as with
  | nil => exact pure _
  | cons a as ih =>
    refine bind (hf a) fun holds => ?_
    cases holds with
    | true => exact ih
    | false => exact pure _

theorem foldlM {f g : β → α → Eval β} (hf : ∀ b a, p.Follows (f b a) (g b a)) (as : List α)
    (init : β) : p.Follows (as.foldlM f init) (as.foldlM g init) := by
  induction as generalizing init with
  | nil => exact pure _
  | cons a as ih =>
    rw [List.foldlM_cons, List.foldlM_cons]
    exact bind (hf init a) fun b => ih b

end Pairing

end Doctest.Script
