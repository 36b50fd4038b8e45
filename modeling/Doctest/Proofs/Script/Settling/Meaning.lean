import Doctest.Proofs.Script.Settling.Requests
import Doctest.Proofs.Script.Settling.Shapes

/-!
# What promises mean

Promises that wait for each other make a graph. If it has no cycles and its handlers do nothing but
give something for their argument, the outcome of each of its promises is given by recursion on the
graph. Settling does work only once and keeps outcomes, and it comes to that very outcome, up to the
identity of the cells that it makes, whatever promises of the graph were settled before.
-/

namespace Doctest.Script

open Eval

/-! ### Outcomes by recursion -/

/-- The shape of an outcome. -/
abbrev Meaning :=
  Except Shape Shape

/-- What becomes of a call of a handler: it gives a value that is no promise, or a promise, or it
raises a value. -/
inductive Answer where
  | gives (result : Shape)
  | follows (ref : Ref .promise)
  | raises (reason : Shape)

/-- Some promises with ranks, and what their handlers do for an argument of some shape. -/
structure Graph where
  node : Ref .promise → Prop
  rank : Ref .promise → Nat
  answer : Value → Shape → Answer

/-- The meaning of a value of the old heap, where promises have meanings. -/
def Value.meaning (means : Ref .promise → Meaning) : Value → Meaning
  | .promise ref => means ref
  | value => .ok (.known (.value value))

namespace Graph

variable (graph : Graph)

/-- What a handler makes of an argument; without a handler it is something else. -/
def handled (means : Ref .promise → Meaning) (handler : Option Value) (argument : Shape)
    (otherwise : Meaning) : Meaning :=
  match handler with
  | none => otherwise
  | some handler =>
    match graph.answer handler argument with
    | .gives result => .ok result
    | .follows ref => means ref
    | .raises reason => .error reason

/-- The outcome of some work, where promises have meanings. -/
def worked (means : Ref .promise → Meaning) : Reaction → Meaning
  | .unresolved => .error (.failure .neverSettled)
  | .running => .error (.failure .promiseCycle)
  | .adopt source => means source
  | .andThen source onFulfilled onRejected =>
    match means source with
    | .ok value => graph.handled means onFulfilled value (.ok value)
    | .error reason => graph.handled means onRejected reason (.error reason)
  | .all items => (items.mapM (Value.meaning means)).map .array

/-- The meaning of a promise, no more than so many of which wait for each other. -/
def meaningWithin (base : Heap) : Nat → Ref .promise → Meaning
  | 0, _ => .error (.failure .neverSettled)
  | levels + 1, ref =>
    match base.get ref with
    | .fulfilled value => .ok (.known (.value value))
    | .rejected reason => .error (.known (.value reason))
    | .pending reaction => graph.worked (meaningWithin base levels) reaction

/-- The meaning of a promise, by recursion on its rank. -/
def meaning (base : Heap) (ref : Ref .promise) : Meaning :=
  graph.meaningWithin base (graph.rank ref + 1) ref

/-- A promise of the graph that stands below another one. -/
def Below (ref below : Ref .promise) : Prop :=
  graph.node below ∧ graph.rank below < graph.rank ref

end Graph

/-- The promises that some work waits for. -/
def Reaction.sources : Reaction → List (Ref .promise)
  | .unresolved | .running => []
  | .adopt source | .andThen source _ _ => [source]
  | .all items => items.filterMap fun item =>
    match item with
    | .promise ref => some ref
    | _ => none

/-- A machine that goes back to another one: all cells but promises are as they were. -/
structure Machine.GoesBack (start later : Machine) : Prop where
  depth : later.depth = start.depth
  grows : start.heap.Grows later.heap
  closed : later.heap.Closed fun _ => False
  same : ∀ {kind : CellKind} (ref : Ref kind), kind ≠ .promise →
    ref.index < start.heap.count kind → later.heap.get ref = start.heap.get ref

namespace Graph

variable (graph : Graph)

/-- A handler of a promise is pure for arguments of some shape: whatever machine it is called on,
it changes no cell, and what it gives or raises is of the shape that the graph tells. A promise that
it gives stands below. -/
structure Pure (levels : Nat) (start : Machine) (ref : Ref .promise) (handler : Value)
    (argument : Shape) : Prop where
  below : ∀ other, graph.answer handler argument = .follows other → graph.Below ref other
  same : ∀ m, start.GoesBack m → ∀ value, value.Of (fun _ => False) m.heap →
    value.shape start.heap m.heap = argument → ∀ {kind : CellKind} (found : Ref kind),
      found.index < m.heap.count kind →
        (invoke levels handler [value] m).2.heap.get found = m.heap.get found
  answers : ∀ m, start.GoesBack m → ∀ value, value.Of (fun _ => False) m.heap →
    value.shape start.heap m.heap = argument →
      match graph.answer handler argument with
      | .gives shape => ∃ result, (invoke levels handler [value] m).1 = .ok result ∧
        (∀ inner, result ≠ .promise inner) ∧
        result.shape start.heap (invoke levels handler [value] m).2.heap = shape
      | .follows other => (invoke levels handler [value] m).1 = .ok (.promise other)
      | .raises shape => ∃ reason, (invoke levels handler [value] m).1 = .error (.raised reason) ∧
        reason.shape start.heap (invoke levels handler [value] m).2.heap = shape

/-- A graph without cycles, where handlers are pure for what the promises mean that they wait for.
More levels are granted than promises wait for each other. -/
structure Lawful (levels : Nat) (start : Machine) : Prop where
  there : ∀ ref, graph.node ref → ref.index < start.heap.count .promise
  deep : ∀ ref, graph.node ref → graph.rank ref < levels
  waits : ∀ ref reaction, graph.node ref → start.heap.get ref = .pending reaction →
    reaction ≠ .running ∧ ∀ source ∈ reaction.sources, graph.Below ref source
  fulfilled : ∀ ref source onFulfilled onRejected handler argument, graph.node ref →
    start.heap.get ref = .pending (.andThen source onFulfilled onRejected) →
    onFulfilled = some handler → graph.meaning start.heap source = .ok argument →
    graph.Pure levels start ref handler argument
  rejected : ∀ ref source onFulfilled onRejected handler argument, graph.node ref →
    start.heap.get ref = .pending (.andThen source onFulfilled onRejected) →
    onRejected = some handler → graph.meaning start.heap source = .error argument →
    graph.Pure levels start ref handler argument

end Graph

/-! ### The recursion -/

namespace Graph

variable {graph : Graph} {levels : Nat} {start : Machine}

theorem mapM_congr {means means' : Ref .promise → Meaning} {items : List Value}
    (h : ∀ item ∈ items, item.meaning means = item.meaning means') :
    items.mapM (Value.meaning means) = items.mapM (Value.meaning means') := by
  induction items with
  | nil => rfl
  | cons item rest ih =>
    have hrest := ih fun other hmem => h other (List.mem_cons_of_mem _ hmem)
    rw [List.mapM_cons, List.mapM_cons, h item List.mem_cons_self, hrest]

theorem Pure.handled {ref : Ref .promise} {handler : Value} {argument : Shape}
    (h : graph.Pure levels start ref handler argument) {means means' : Ref .promise → Meaning}
    (hmeans : ∀ other, graph.Below ref other → means other = means' other) (otherwise : Meaning) :
    graph.handled means (some handler) argument otherwise =
      graph.handled means' (some handler) argument otherwise := by
  unfold Graph.handled
  dsimp only
  cases hanswer : graph.answer handler argument with
  | gives | raises => rfl
  | follows other => exact hmeans other (h.below other hanswer)

theorem mem_sources {items : List Value} {ref : Ref .promise} (h : .promise ref ∈ items) :
    ref ∈ (Reaction.all items).sources :=
  List.mem_filterMap.mpr ⟨.promise ref, h, rfl⟩

/-- What work comes to depends on the meanings of the promises below only. -/
theorem Lawful.worked (h : graph.Lawful levels start) {ref : Ref .promise} {reaction : Reaction}
    (hnode : graph.node ref) (hget : start.heap.get ref = .pending reaction)
    {means : Ref .promise → Meaning}
    (hmeans : ∀ other, graph.Below ref other → means other = graph.meaning start.heap other) :
    graph.worked means reaction = graph.worked (graph.meaning start.heap) reaction := by
  obtain ⟨-, hsources⟩ := h.waits ref reaction hnode hget
  cases reaction with
  | unresolved | running => rfl
  | adopt source => exact hmeans source (hsources source List.mem_cons_self)
  | andThen source onFulfilled onRejected =>
    have hsource := hmeans source (hsources source List.mem_cons_self)
    dsimp only [Graph.worked]
    rw [hsource]
    cases houtcome : graph.meaning start.heap source with
    | ok value =>
      cases hhandler : onFulfilled with
      | none => rfl
      | some handler =>
        exact (h.fulfilled ref source _ _ handler value hnode hget hhandler houtcome).handled
          hmeans _
    | error reason =>
      cases hhandler : onRejected with
      | none => rfl
      | some handler =>
        exact (h.rejected ref source _ _ handler reason hnode hget hhandler houtcome).handled
          hmeans _
  | all items =>
    have hitems : items.mapM (Value.meaning means) =
        items.mapM (Value.meaning (graph.meaning start.heap)) := by
      refine mapM_congr fun item hmem => ?_
      cases item with
      | promise other => exact hmeans other (hsources other (mem_sources hmem))
      | _ => rfl
    exact congrArg (Except.map Shape.array) hitems

/-- More levels than promises wait for each other make no difference. -/
theorem Lawful.meaningWithin (h : graph.Lawful levels start) {within : Nat} {ref : Ref .promise}
    (hnode : graph.node ref) (hrank : graph.rank ref < within) :
    graph.meaningWithin start.heap within ref = graph.meaning start.heap ref := by
  induction within using Nat.strongRecOn generalizing ref with
  | ind within ih =>
    have hstep (count : Nat) (hcount : count < within) (hbelow : graph.rank ref ≤ count) :
        graph.meaningWithin start.heap (count + 1) ref =
          match start.heap.get ref with
          | .fulfilled value => .ok (.known (.value value))
          | .rejected reason => .error (.known (.value reason))
          | .pending reaction => graph.worked (graph.meaning start.heap) reaction := by
      rw [Graph.meaningWithin]
      cases hget : start.heap.get ref with
      | fulfilled | rejected => rfl
      | pending reaction =>
        refine h.worked hnode hget fun other hother => ?_
        exact ih count hcount hother.1 (by have := hother.2; omega)
    obtain ⟨count, rfl⟩ : ∃ count, within = count + 1 := ⟨within - 1, by omega⟩
    rw [hstep count (by omega) (by omega), Graph.meaning, hstep (graph.rank ref) hrank (by omega)]

/-- **The recursion.** What a promise means is its outcome, or what its work comes to. -/
theorem Lawful.meaning_eq (h : graph.Lawful levels start) {ref : Ref .promise}
    (hnode : graph.node ref) :
    graph.meaning start.heap ref =
      match start.heap.get ref with
      | .fulfilled value => .ok (.known (.value value))
      | .rejected reason => .error (.known (.value reason))
      | .pending reaction => graph.worked (graph.meaning start.heap) reaction := by
  rw [Graph.meaning, Graph.meaningWithin]
  cases hget : start.heap.get ref with
  | fulfilled | rejected => rfl
  | pending reaction =>
    exact h.worked hnode hget fun other hother => h.meaningWithin hother.1 hother.2

end Graph

/-! ### What settling keeps of a graph -/

/-- The shape of an outcome. -/
def Outcome.shape (base heap : Heap) : Outcome → Meaning
  | .ok value => .ok (value.shape base heap)
  | .error reason => .error (reason.shape base heap)

/-- An outcome of a machine that has a meaning. -/
structure Outcome.Means (start m : Machine) (outcome : Outcome) (meaning : Meaning) : Prop where
  of : Library.Outcome.Of (fun _ => False) m.heap outcome
  shape : outcome.shape start.heap m.heap = meaning

namespace Graph

variable (graph : Graph) (start : Machine)

/-- A promise that was settled and has the outcome that it means. -/
def Settled (m : Machine) (ref : Ref .promise) : Prop :=
  ∃ outcome, m.heap.get ref = .ofOutcome outcome ∧
    outcome.Means start m (graph.meaning start.heap ref)

/-- What may happen while promises of the graph are settled: cells are made, and promises of the
graph that were as at first are given the outcomes that they mean. -/
structure Progress (m last : Machine) : Prop where
  depth : last.depth = m.depth
  grows : m.heap.Grows last.heap
  closed : last.heap.Closed fun _ => False
  same : ∀ {kind : CellKind} (ref : Ref kind), ref.index < m.heap.count kind →
    (∀ other, graph.node other → ref.place ≠ other.place) →
      last.heap.get ref = m.heap.get ref
  nodes : ∀ ref, graph.node ref → last.heap.get ref = m.heap.get ref ∨
    (m.heap.get ref = start.heap.get ref ∧ graph.Settled start last ref)

/-- A machine that goes back to the first one, where promises of lower rank are as at first or have
the outcomes that they mean. -/
structure Ready (rank : Nat) (m : Machine) : Prop where
  goesBack : start.GoesBack m
  nodes : ∀ ref, graph.node ref → graph.rank ref < rank →
    m.heap.get ref = start.heap.get ref ∨ graph.Settled start m ref

/-- An evaluation that comes to an end, with no more than progress, and gives something. -/
def Does {α : Type} (m : Machine) (x : Eval α) (good : Machine → α → Prop) : Prop :=
  ∃ a last, x m = (.ok a, last) ∧ graph.Progress start m last ∧ good last a

end Graph

section

variable {graph : Graph} {levels : Nat} {start m middle last : Machine}

theorem Machine.GoesBack.count_le (h : start.GoesBack m) (kind : CellKind) :
    start.heap.count kind ≤ m.heap.count kind :=
  h.grows kind

/-- A new cell is no promise of the graph. -/
theorem Graph.Lawful.place_ne (h : graph.Lawful levels start) {place : Place}
    (hplace : start.heap.count place.kind ≤ place.index) (other : Ref .promise)
    (hnode : graph.node other) : place ≠ other.place := by
  rintro rfl
  exact Nat.not_lt.mpr hplace (h.there other hnode)

/-- All cells that were made since the first machine are as they were. -/
structure Machine.Extends (start m last : Machine) : Prop where
  grows : m.heap.Grows last.heap
  made : ∀ {kind : CellKind} (ref : Ref kind), start.heap.count kind ≤ ref.index →
    ref.index < m.heap.count kind → last.heap.get ref = m.heap.get ref

/-- Changing a promise of the graph leaves what was made since the first machine. -/
theorem Machine.Extends.modify (hlawful : graph.Lawful levels start) {ref : Ref .promise}
    (hnode : graph.node ref) (f : PromiseState → PromiseState) :
    start.Extends m ⟨m.heap.modify ref f, m.depth⟩ where
  grows := m.heap.grows_modify ref f
  made _ hmade _ := Heap.get_modify_of_place_ne _ _ _ _ (hlawful.place_ne hmade ref hnode)

theorem Graph.Progress.extends (h : graph.Progress start m last)
    (hlawful : graph.Lawful levels start) : start.Extends m last :=
  ⟨h.grows, fun ref hmade hthere =>
    h.same ref hthere fun other hnode => hlawful.place_ne hmade other hnode⟩

/-- Shapes last as long as the cells that were made. -/
theorem Machine.Extends.shape (h : start.Extends m last)
    (hclosed : m.heap.Closed fun _ => False) {value : Value}
    (hvalue : value.Of (fun _ => False) m.heap) :
    value.shape start.heap last.heap = value.shape start.heap m.heap :=
  shape_later hclosed (fun place hmade hthere => h.made place.ref hmade hthere) hvalue

theorem Outcome.Means.later {outcome : Outcome} {meaning : Meaning}
    (h : outcome.Means start m meaning) (hclosed : m.heap.Closed fun _ => False)
    (hextends : start.Extends m last) : outcome.Means start last meaning := by
  obtain ⟨hof, hshape⟩ := h
  cases outcome with
  | ok value =>
    have hlast := hextends.shape hclosed hof
    exact ⟨Value.Of.later hof hextends.grows, by rw [← hshape, Outcome.shape, hlast]; rfl⟩
  | error reason =>
    have hlast := hextends.shape hclosed hof
    exact ⟨Value.Of.later hof hextends.grows, by rw [← hshape, Outcome.shape, hlast]; rfl⟩

theorem Graph.Settled.later {ref : Ref .promise} (h : graph.Settled start m ref)
    (hclosed : m.heap.Closed fun _ => False) (hextends : start.Extends m last)
    (hget : last.heap.get ref = m.heap.get ref) : graph.Settled start last ref := by
  obtain ⟨outcome, houtcome, hmeans⟩ := h
  exact ⟨outcome, hget.trans houtcome, hmeans.later hclosed hextends⟩

namespace Graph.Progress

theorem refl (hclosed : m.heap.Closed fun _ => False) : graph.Progress start m m :=
  ⟨rfl, .refl _, hclosed, fun _ _ _ => rfl, fun _ _ => .inl rfl⟩

/-- Making cells is progress. -/
theorem of_same (hgoes : start.GoesBack m) (hlawful : graph.Lawful levels start)
    (hdepth : last.depth = m.depth) (hgrows : m.heap.Grows last.heap)
    (hclosed : last.heap.Closed fun _ => False)
    (hsame : ∀ {kind : CellKind} (ref : Ref kind), ref.index < m.heap.count kind →
      last.heap.get ref = m.heap.get ref) : graph.Progress start m last where
  depth := hdepth
  grows := hgrows
  closed := hclosed
  same ref hthere _ := hsame ref hthere
  nodes ref hnode := by
    have hthere := hlawful.there ref hnode
    exact .inl (hsame ref (Nat.lt_of_lt_of_le hthere (hgoes.count_le _)))

theorem trans (hlawful : graph.Lawful levels start) (h : graph.Progress start m middle)
    (hrest : graph.Progress start middle last) : graph.Progress start m last where
  depth := hrest.depth.trans h.depth
  grows := h.grows.trans hrest.grows
  closed := hrest.closed
  same ref hthere hother := by
    have hthere' := Nat.lt_of_lt_of_le hthere (h.grows _)
    rw [hrest.same ref hthere' hother, h.same ref hthere hother]
  nodes ref hnode := by
    rcases hrest.nodes ref hnode with hlast | ⟨hmiddle, hsettled⟩
    · rcases h.nodes ref hnode with hkept | ⟨hfirst, hsettled⟩
      · exact .inl (hlast.trans hkept)
      · exact .inr ⟨hfirst, hsettled.later h.closed (hrest.extends hlawful) hlast⟩
    · rcases h.nodes ref hnode with hkept | ⟨hfirst, -⟩
      · exact .inr ⟨hkept.symm.trans hmiddle, hsettled⟩
      · exact .inr ⟨hfirst, hsettled⟩

theorem goesBack (h : graph.Progress start m last) (hgoes : start.GoesBack m) :
    start.GoesBack last where
  depth := h.depth.trans hgoes.depth
  grows := hgoes.grows.trans h.grows
  closed := h.closed
  same {kind} ref hkind hthere := by
    have hthere' := Nat.lt_of_lt_of_le hthere (hgoes.count_le _)
    rw [h.same ref hthere' ?_, hgoes.same ref hkind hthere]
    intro other _ hplace
    exact hkind (congrArg Place.kind hplace)

theorem ready (h : graph.Progress start m last) (hlawful : graph.Lawful levels start) {rank : Nat}
    (hready : graph.Ready start rank m) : graph.Ready start rank last where
  goesBack := h.goesBack hready.goesBack
  nodes ref hnode hrank := by
    rcases h.nodes ref hnode with hkept | ⟨-, hsettled⟩
    · rcases hready.nodes ref hnode hrank with hfirst | hsettled
      · exact .inl (hkept.trans hfirst)
      · exact .inr (hsettled.later hready.goesBack.closed (h.extends hlawful) hkept)
    · exact .inr hsettled

end Graph.Progress

end

end Doctest.Script
