import Doctest.Proofs.Script.Pairing.Evaluation

/-!
# The same machine twice

Where two evaluations are started on one machine, what holds of machines is carried along: how many
calls of closures are being made, or how promises stand.
-/

namespace Doctest.Script

/-- Something that holds of machines stays true when something is done to them. -/
structure Machine.Lasting (holds : Machine → Prop) : Prop where
  alloc : ∀ {m : Machine}, holds m → ∀ {kind : CellKind} (cell : Cell kind),
    holds ⟨(m.heap.alloc kind cell).2, m.depth⟩
  change : ∀ {m : Machine}, holds m → ∀ {kind : CellKind} (ref : Ref kind)
    (f : Cell kind → Cell kind), kind ≠ .promise → holds ⟨m.heap.modify ref f, m.depth⟩
  resolve : ∀ {m : Machine}, holds m → ∀ (ref : Ref .promise) (state : PromiseState),
    m.heap.get ref = .pending .unresolved → holds ⟨m.heap.modify ref fun _ => state, m.depth⟩

/-- What holds of the depth alone. -/
theorem Machine.Lasting.of_depth (holds : Nat → Prop) :
    Machine.Lasting fun m => holds m.depth where
  alloc h _ _ := h
  change h _ _ _ _ := h
  resolve h _ _ _ := h

namespace Pairing

/-- The same machine twice, of which something holds. -/
def itself (holds : Machine → Prop) (cuts : Prop) (stuck : Machine → Prop) : Pairing where
  same m n := m = n ∧ holds m
  cuts := cuts
  stuck := stuck

variable {holds inner stuck : Machine → Prop} {cuts : Prop}

theorem itself_lawful (hholds : Machine.Lasting holds)
    (hend : ∀ {m : Machine}, holds m → m.heap.Endless → stuck m) :
    (itself holds cuts stuck).Lawful where
  resembles := by
    rintro m _ ⟨rfl, -⟩
    exact (Heap.Beside.refl _).resembles
  waits := by
    rintro m _ ⟨rfl, -⟩ ref
    exact .rfl
  inspect := by
    rintro m _ ⟨rfl, -⟩ value
    rfl
  alloc := by
    rintro m _ ⟨rfl, hm⟩ kind cell
    refine ⟨?_, hholds.alloc hm cell⟩
    change _ = Machine.mk (m.heap.alloc kind (Cell.mapSpans id cell)).2 m.depth
    rw [Cell.mapSpans_id]
  change := by
    rintro m _ ⟨rfl, hm⟩ kind ref f ⟨hkind, -⟩
    exact ⟨rfl, hholds.change hm ref f hkind⟩
  resolve := by
    rintro m _ ⟨rfl, hm⟩ ref state hwaits
    exact ⟨rfl, hholds.resolve hm ref state hwaits⟩
  endless := by
    rintro m _ ⟨rfl, hm⟩ hendless
    exact hend hm hendless

/-- Something else may hold within a call of a closure than around it. -/
theorem itself_deeper
    (hinto : ∀ {m : Machine}, holds m → m.depth < greatestDepth → inner ⟨m.heap, m.depth + 1⟩)
    (hback : ∀ {m : Machine}, inner m → holds ⟨m.heap, m.depth - 1⟩)
    (hstuck : ∀ {m : Machine}, stuck m → stuck ⟨m.heap, m.depth - 1⟩) :
    (itself holds cuts stuck).Deeper (itself inner cuts stuck) where
  depth := by
    rintro m _ ⟨rfl, -⟩
    rfl
  into := by
    rintro m _ ⟨rfl, hm⟩ hdepth
    exact ⟨rfl, hinto hm hdepth⟩
  back := by
    rintro m _ ⟨rfl, hm⟩
    exact ⟨rfl, hback hm⟩
  cuts := id
  stuck := hstuck
  returns := id
  spans := rfl

/-- Evaluations that are not cut off have the same end, and something holds of the machine that
both leave. -/
theorem eq_of_itself {α : Type} {x y : Eval α} (hcuts : ¬ cuts)
    (h : (itself holds cuts stuck).Follows x y) {start : Machine} (hstart : holds start) :
    x start = y start ∧ holds (x start).2 ∧ ∀ value, (x start).1 ≠ .error (.returned value) := by
  rcases h start start ⟨rfl, hstart⟩ with ⟨hcut, -⟩ | ⟨hfound, ⟨hlast, hholds⟩, hadmits⟩
  · exact absurd hcut hcuts
  · exact ⟨Prod.ext hfound hlast, hholds, fun value hreturned => hadmits _ hreturned⟩

end Pairing

end Doctest.Script
