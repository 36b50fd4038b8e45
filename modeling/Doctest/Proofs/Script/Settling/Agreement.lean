import Doctest.Proofs.Script.Settling.Meaning

/-!
# Settling comes to what promises mean

Settling a promise of a graph gives the outcome that the promise means. Outcomes that are kept and
work that is done in whatever order make no difference: each part of settling starts on a machine
where the promises below are as at first or have the outcomes that they mean, and leaves one.
-/

namespace Doctest.Script

open Eval

variable {graph : Graph} {levels : Nat} {start m last : Machine}

namespace Graph.Does

variable {α β : Type} {good : Machine → α → Prop} {more : Machine → β → Prop}

theorem pure (hclosed : m.heap.Closed fun _ => False) {a : α} (h : good m a) :
    graph.Does start m (Pure.pure a) good :=
  ⟨a, m, rfl, .refl hclosed, h⟩

theorem bind (hlawful : graph.Lawful levels start) {x : Eval α} {f : α → Eval β}
    (hx : graph.Does start m x good)
    (hf : ∀ a last, graph.Progress start m last → good last a →
      graph.Does start last (f a) more) : graph.Does start m (x >>= f) more := by
  obtain ⟨a, middle, hrun, hmiddle, hgood⟩ := hx
  obtain ⟨b, last, hrest, hlast, hmore⟩ := hf a middle hmiddle hgood
  refine ⟨b, last, ?_, hmiddle.trans hlawful hlast, hmore⟩
  rw [bind_apply, hrun]
  exact hrest

end Graph.Does

/-! ### New cells -/

section

variable (hgoes : start.GoesBack m) (hlawful : graph.Lawful levels start)
include hgoes hlawful

/-- A new cell that is no promise. -/
theorem alloc_does {kind : CellKind} (hkind : kind ≠ .promise) (cell : Cell kind)
    (hmade : Cell.Made m.heap cell) (hcell : Cell.Within (m.heap.Has fun _ => False) cell) :
    graph.Does start m (Eval.alloc kind cell) fun last ref =>
      start.heap.count kind ≤ ref.index ∧ last.heap.Has (fun _ => False) ref.place ∧
        last.heap.get ref = cell := by
  have hkept : Kept Heap.Step (fun _ => False) False (fun heap ref => heap.Has _ ref.place) m
      (Eval.alloc kind cell m) :=
    .alloc hgoes.closed (.alloc cell hkind hmade) hcell
  refine ⟨(m.heap.alloc kind cell).1, ⟨(m.heap.alloc kind cell).2, m.depth⟩, rfl, ?_, ?_,
    hkept.found, ?_⟩
  · refine .of_same hgoes hlawful rfl hkept.grows hkept.closed fun {kind'} ref hthere => ?_
    refine Heap.get_alloc_of_place_ne _ _ _ fun hplace => ?_
    injection hplace with hkind hindex
    subst hkind
    omega
  · rw [Heap.alloc_fst]
    exact hgoes.count_le kind
  · rw [Heap.alloc_fst, Heap.get_alloc, if_pos rfl]

/-- The error of a promise that comes to no outcome by itself. -/
theorem newError_does (failure : Failure) :
    graph.Does start m (Eval.newError failure) fun last reason =>
      Outcome.Means start last (.error reason) (.error (.failure failure)) := by
  refine .bind hlawful (alloc_does hgoes hlawful (by decide) _ (.inl rfl) Dict.all_empty)
    fun ref last hlast hcell => ?_
  obtain ⟨hnew, hthere, hget⟩ := hcell
  exact .pure hlast.closed ⟨hthere, congrArg Except.error (shape_failure hnew hget)⟩

/-- The array of what all items of a promise are fulfilled with. -/
theorem newArray_does {values : List Value} (hvalues : AllOf (fun _ => False) m.heap values) :
    graph.Does start m (Eval.newArray values.toArray) fun last value =>
      Outcome.Means start last (.ok value)
        (.ok (.array (values.map (Value.shape start.heap m.heap)))) := by
  refine .bind hlawful (alloc_does hgoes hlawful (by decide) _ trivial
    fun item hmem => hvalues item (List.mem_toArray.mp hmem))
    fun ref last hlast hcell => ?_
  obtain ⟨hnew, hthere, hget⟩ := hcell
  refine .pure hlast.closed ⟨hthere, ?_⟩
  have hshapes : values.map (Value.shape start.heap last.heap) =
      values.map (Value.shape start.heap m.heap) :=
    List.map_congr_left fun value hmem =>
      (hlast.extends hlawful).shape hgoes.closed (hvalues value hmem)
  rw [Outcome.shape, shape_array hnew, hget, List.toList_toArray, hshapes]

end

/-! ### Settling -/

/-- A value of the first heap has the shape of what is known. -/
theorem shape_of_start {value : Value} (h : value.Of (fun _ => False) start.heap) (heap : Heap) :
    value.shape start.heap heap = .known (.value value) :=
  have hwithin : (Part.value value).Within (start.heap.Has fun _ => False) := h
  shape_of_known hwithin.new? heap

/-- What a call of a handler comes to, if it comes to what the graph tells. -/
def Answer.Holds (answer : Answer) (start m : Machine) (found : Outcome) : Prop :=
  match answer with
  | .gives shape => ∃ result, found = .ok result ∧ (∀ inner, result ≠ .promise inner) ∧
    Outcome.Means start m (.ok result) (.ok shape)
  | .follows other => found = .ok (.promise other)
  | .raises shape => ∃ reason, found = .error reason ∧
    Outcome.Means start m (.error reason) (.error shape)

theorem handle_apply (invoke : Invoke) (ref : Ref .promise) (function value : Value)
    (start : Machine) :
    (Settler.calling invoke).handle ref function value start =
      match invoke function [value] start with
      | (.ok result, last) => (.ok (.ok result), last)
      | (.error (.raised reason), last) => (.ok (.error reason), last)
      | (.error signal, last) => (.error signal, last) :=
  rfl

/-- A handler that is pure does what the graph tells. -/
theorem handle_does (hgoes : start.GoesBack m) (hlawful : graph.Lawful levels start)
    {ref : Ref .promise} {function value : Value} {argument : Shape}
    (hpure : graph.Pure levels start ref function argument)
    (hfunction : function.Of (fun _ => False) m.heap) (hvalue : value.Of (fun _ => False) m.heap)
    (hargument : value.shape start.heap m.heap = argument) :
    graph.Does start m ((Settler.calling (invoke levels)).handle ref function value)
      fun last found => (graph.answer function argument).Holds start last found := by
  have hargs : AllOf (fun _ => False) m.heap [value] := .cons hvalue fun _ hmem => by cases hmem
  have hkept := invoke_keeps levels hfunction hargs m (.refl _) hgoes.closed
  have hsame {kind : CellKind} (found : Ref kind) :=
    hpure.same m hgoes value hvalue hargument found
  have hanswers := hpure.answers m hgoes value hvalue hargument
  unfold Graph.Does Answer.Holds
  rw [handle_apply]
  rcases hcalled : invoke levels function [value] m with ⟨found, last⟩
  rw [hcalled] at hkept hanswers
  simp only [hcalled] at hsame
  have hprogress : graph.Progress start m last :=
    .of_same hgoes hlawful hkept.depth hkept.grows hkept.closed hsame
  cases hanswer : graph.answer function argument with
  | gives shape =>
    rw [hanswer] at hanswers
    obtain ⟨result, rfl, hplain, hshape⟩ := hanswers
    exact ⟨_, last, rfl, hprogress, result, rfl, hplain, hkept.found, congrArg Except.ok hshape⟩
  | follows other =>
    rw [hanswer] at hanswers
    obtain rfl := hanswers
    exact ⟨_, last, rfl, hprogress, rfl⟩
  | raises shape =>
    rw [hanswer] at hanswers
    obtain ⟨reason, rfl, hshape⟩ := hanswers
    exact ⟨_, last, rfl, hprogress, reason, rfl, hkept.found, congrArg Except.error hshape⟩

section

variable (hlawful : graph.Lawful levels start) {ref : Ref .promise}
  {settle : Ref .promise → Eval Outcome}
  (hsettle : ∀ {m : Machine} {other : Ref .promise}, graph.Below ref other →
    graph.Ready start (graph.rank ref) m →
    graph.Does start m (settle other) fun last outcome =>
      outcome.Means start last (graph.meaning start.heap other))
include hsettle

/-- A value of the first heap is settled as it means. -/
theorem settleValue_does (hready : graph.Ready start (graph.rank ref) m) {value : Value}
    (hbelow : ∀ other, value = .promise other → graph.Below ref other)
    (hvalue : value.Of (fun _ => False) start.heap) :
    graph.Does start m (settleValue settle value) fun last outcome =>
      outcome.Means start last (value.meaning (graph.meaning start.heap)) := by
  have hgoes := hready.goesBack
  cases value with
  | promise other => exact hsettle (hbelow other rfl) hready
  | _ =>
    refine .pure hgoes.closed ⟨Value.Of.later hvalue hgoes.grows, ?_⟩
    exact congrArg Except.ok (shape_of_start hvalue _)

include hlawful

/-- What all items of a list are fulfilled with, or the reason of the first one that is rejected. -/
theorem settleItems_does (hready : graph.Ready start (graph.rank ref) m) {items : List Value}
    (hbelow : ∀ other, .promise other ∈ items → graph.Below ref other)
    (hitems : AllOf (fun _ => False) start.heap items) :
    graph.Does start m (settleItems settle items) fun last found =>
      match found with
      | .ok values => AllOf (fun _ => False) last.heap values ∧
        items.mapM (Value.meaning (graph.meaning start.heap)) =
          .ok (values.map (Value.shape start.heap last.heap))
      | .error reason => ∃ shape, Outcome.Means start last (.error reason) (.error shape) ∧
        items.mapM (Value.meaning (graph.meaning start.heap)) = .error shape := by
  induction items generalizing m with
  | nil => exact .pure hready.goesBack.closed ⟨nofun, rfl⟩
  | cons item rest ih =>
    have hitem := settleValue_does hsettle hready
      (fun other heq => hbelow other (heq ▸ List.mem_cons_self)) (hitems item List.mem_cons_self)
    refine .bind hlawful hitem fun found middle hmiddle hmeans => ?_
    rw [List.mapM_cons]
    cases found with
    | error reason =>
      refine .pure hmiddle.closed ⟨_, ⟨hmeans.of, rfl⟩, ?_⟩
      rw [← hmeans.shape]
      rfl
    | ok value =>
      have hrest := ih (hmiddle.ready hlawful hready)
        (fun other hmem => hbelow other (List.mem_cons_of_mem _ hmem))
        (fun other hmem => hitems other (List.mem_cons_of_mem _ hmem))
      refine .bind hlawful hrest fun others last hlast hothers => ?_
      have hvalue := hmeans.later hmiddle.closed (hlast.extends hlawful)
      rw [← hvalue.shape]
      cases others with
      | error reason =>
        obtain ⟨shape, hreason, hall⟩ := hothers
        exact .pure hlast.closed ⟨shape, hreason, by rw [hall]; rfl⟩
      | ok values =>
        obtain ⟨hvalues, hall⟩ := hothers
        exact .pure hlast.closed ⟨.cons hvalue.of hvalues, by rw [hall]; rfl⟩

/-- What a handler gives is settled in turn. -/
theorem settleHandler_does (hready : graph.Ready start (graph.rank ref) m)
    {handler : Option Value} {value : Value} {argument : Shape} {otherwise : Outcome}
    {meaning : Meaning}
    (hpure : ∀ function, handler = some function → function.Of (fun _ => False) m.heap ∧
      graph.Pure levels start ref function argument)
    (hvalue : value.Of (fun _ => False) m.heap)
    (hargument : value.shape start.heap m.heap = argument)
    (hotherwise : otherwise.Means start m meaning) :
    graph.Does start m
      (settleHandler ((Settler.calling (invoke levels)).handle ref) settle handler value otherwise)
      fun last outcome => outcome.Means start last
        (graph.handled (graph.meaning start.heap) handler argument meaning) := by
  cases handler with
  | none => exact .pure hready.goesBack.closed hotherwise
  | some function =>
    obtain ⟨hfunction, hpure⟩ := hpure function rfl
    refine .bind hlawful (handle_does hready.goesBack hlawful hpure hfunction hvalue hargument)
      fun found last hlast hfound => ?_
    unfold Graph.handled
    dsimp only
    cases hanswer : graph.answer function argument with
    | gives shape =>
      rw [hanswer] at hfound
      obtain ⟨result, rfl, hplain, hmeans⟩ := hfound
      have hsettled : settleValue settle result = pure (.ok result) := by
        cases result with
        | promise inner => exact absurd rfl (hplain inner)
        | _ => rfl
      dsimp only
      rw [hsettled]
      exact .pure hlast.closed hmeans
    | follows other =>
      rw [hanswer] at hfound
      obtain rfl := hfound
      exact hsettle (hpure.below other hanswer) (hlast.ready hlawful hready)
    | raises shape =>
      rw [hanswer] at hfound
      obtain ⟨reason, rfl, hmeans⟩ := hfound
      exact .pure hlast.closed hmeans

/-- The work of a promise comes to what the promise means. -/
theorem react_does (hready : graph.Ready start (graph.rank ref) m) {reaction : Reaction}
    (hwhole : start.heap.Closed fun _ => False)
    (hnode : graph.node ref) (hget : start.heap.get ref = .pending reaction) :
    graph.Does start m (react ((Settler.calling (invoke levels)).handle ref) settle reaction)
      fun last outcome => outcome.Means start last (graph.meaning start.heap ref) := by
  have hgoes := hready.goesBack
  obtain ⟨hrunning, hsources⟩ := hlawful.waits ref reaction hnode hget
  have hwithin : Cell.Within (start.heap.Has fun _ => False) (start.heap.get ref) :=
    hwhole.within ref id
  rw [hget] at hwithin
  rw [hlawful.meaning_eq hnode, hget]
  dsimp only
  cases reaction with
  | running => exact absurd rfl hrunning
  | unresolved =>
    refine .bind hlawful (newError_does hgoes hlawful .neverSettled)
      fun reason last hlast hmeans => ?_
    exact .pure hlast.closed hmeans
  | adopt source => exact hsettle (hsources source List.mem_cons_self) hready
  | andThen source onFulfilled onRejected =>
    obtain ⟨-, hfulfilled, hrejected⟩ := hwithin
    refine .bind hlawful (hsettle (hsources source List.mem_cons_self) hready)
      fun found last hlast hmeans => ?_
    have hready := hlast.ready hlawful hready
    have hgrows := hready.goesBack.grows
    dsimp only [Graph.worked]
    cases found with
    | ok value =>
      have hargument := hmeans.shape.symm
      rw [hargument]
      refine settleHandler_does hlawful hsettle hready (fun function heq => ?_) hmeans.of rfl
        ⟨hmeans.of, rfl⟩
      refine ⟨Value.Of.later (hfulfilled function heq) hgrows, ?_⟩
      exact hlawful.fulfilled ref source _ _ function _ hnode hget heq hargument
    | error reason =>
      have hargument := hmeans.shape.symm
      rw [hargument]
      refine settleHandler_does hlawful hsettle hready (fun function heq => ?_) hmeans.of rfl
        ⟨hmeans.of, rfl⟩
      refine ⟨Value.Of.later (hrejected function heq) hgrows, ?_⟩
      exact hlawful.rejected ref source _ _ function _ hnode hget heq hargument
  | all items =>
    have hbelow (other : Ref .promise) (hmem : .promise other ∈ items) :=
      hsources other (Graph.mem_sources hmem)
    refine .bind hlawful (settleItems_does hlawful hsettle hready hbelow hwithin)
      fun found last hlast hfound => ?_
    dsimp only [Graph.worked]
    cases found with
    | error reason =>
      obtain ⟨shape, hmeans, hall⟩ := hfound
      rw [hall]
      exact .pure hlast.closed hmeans
    | ok values =>
      obtain ⟨hvalues, hall⟩ := hfound
      rw [hall]
      refine .bind hlawful (newArray_does (hlast.goesBack hgoes) hlawful hvalues)
        fun array final hfinal hmeans => ?_
      exact .pure hfinal.closed hmeans

end

/-! ### Promises -/

/-- A promise that had an outcome at first means that. -/
theorem meaning_of_outcome (hwhole : start.heap.Closed fun _ => False)
    (hgrows : start.heap.Grows m.heap) {ref : Ref .promise} {outcome : Outcome}
    (hget : start.heap.get ref = .ofOutcome outcome) :
    outcome.Means start m (graph.meaning start.heap ref) := by
  have hwithin : Cell.Within (start.heap.Has fun _ => False) (start.heap.get ref) :=
    hwhole.within ref id
  rw [hget] at hwithin
  rw [Graph.meaning, Graph.meaningWithin, hget]
  cases outcome with
  | ok value =>
    exact ⟨Value.Of.later hwithin hgrows, congrArg Except.ok (shape_of_start hwithin _)⟩
  | error reason =>
    exact ⟨Value.Of.later hwithin hgrows, congrArg Except.error (shape_of_start hwithin _)⟩

/-- Where the work of a promise was taken, the promises below are as they were. -/
theorem Graph.Ready.taken (hlawful : graph.Lawful levels start) {ref : Ref .promise}
    {reaction : Reaction} (hnode : graph.node ref) (hget : m.heap.get ref = .pending reaction)
    (hready : graph.Ready start (graph.rank ref) m) :
    graph.Ready start (graph.rank ref) ⟨m.heap.taken ref, m.depth⟩ := by
  obtain ⟨hgoes, hnodes⟩ := hready
  obtain ⟨hgrows, hclosed, -⟩ := taken_kept hgoes.closed hget
  refine ⟨⟨hgoes.depth, hgoes.grows.trans hgrows, hclosed, fun found hkind hthere => ?_⟩,
    fun other hother hrank => ?_⟩
  · exact (Heap.get_modify_of_ne _ _ _ _ hkind).trans (hgoes.same found hkind hthere)
  · have hkept : (m.heap.taken ref).get other = m.heap.get other := by
      rw [Heap.get_modify, if_neg]
      rintro ⟨rfl, -⟩
      exact Nat.lt_irrefl _ hrank
    rcases hnodes other hother hrank with hfirst | hsettled
    · exact .inl (hkept.trans hfirst)
    · exact .inr (hsettled.later hgoes.closed (.modify hlawful hnode _) hkept)

/-- A promise that was as at first is given the outcome that its work came to. -/
theorem Graph.Progress.finished (hlawful : graph.Lawful levels start) {ref : Ref .promise}
    (hnode : graph.node ref) (hgoes : start.GoesBack m)
    (hfirst : m.heap.get ref = start.heap.get ref)
    (h : graph.Progress start ⟨m.heap.taken ref, m.depth⟩ last) {outcome : Outcome}
    (hmeans : outcome.Means start last (graph.meaning start.heap ref)) :
    graph.Progress start m ⟨last.heap.finished ref outcome, last.depth⟩ ∧
      outcome.Means start ⟨last.heap.finished ref outcome, last.depth⟩
        (graph.meaning start.heap ref) := by
  have hextends : start.Extends last ⟨last.heap.finished ref outcome, last.depth⟩ :=
    .modify hlawful hnode _
  have hgrows := (m.heap.grows_modify ref _).trans h.grows
  have hstate : PromiseState.Within (last.heap.Has fun _ => False) (.ofOutcome outcome) := by
    have hof := hmeans.of
    cases outcome <;> exact hof
  have hkept : Kept Heap.SettleStep (fun _ => False) False _ last
      (Eval.change ref (fun _ => .ofOutcome outcome) last) :=
    .change h.closed (.finish last.heap ref outcome) id fun _ _ => hstate
  have hlast := hmeans.later h.closed hextends
  refine ⟨⟨h.depth, hgrows.trans hextends.grows, hkept.closed, fun found hthere hother => ?_,
    fun other hother => ?_⟩, hlast⟩
  · have hne := hother ref hnode
    have hmiddle := h.same found (Nat.lt_of_lt_of_le hthere (m.heap.grows_modify ref _ _)) hother
    exact (Heap.get_modify_of_place_ne _ _ _ _ hne).trans
      (hmiddle.trans (Heap.get_modify_of_place_ne _ _ _ _ hne))
  · by_cases hsame : ref = other
    · subst hsame
      have hthere := Nat.lt_of_lt_of_le (hlawful.there ref hnode) (hgoes.count_le _)
      refine .inr ⟨hfirst, outcome, ?_, hlast⟩
      exact (Heap.get_modify _ _ _ _).trans
        (if_pos ⟨rfl, Nat.lt_of_lt_of_le hthere (hgrows _)⟩)
    · have hne : other.place ≠ ref.place := fun heq =>
        hsame (congrArg (fun place : Place => (⟨place.index⟩ : Ref .promise)) heq).symm
      have htaken : (m.heap.taken ref).get other = m.heap.get other :=
        Heap.get_modify_of_place_ne _ _ _ _ hne
      have hfinished : (last.heap.finished ref outcome).get other = last.heap.get other :=
        Heap.get_modify_of_place_ne _ _ _ _ hne
      rcases h.nodes other hother with hkept | ⟨huntouched, hsettled⟩
      · exact .inl (hfinished.trans (hkept.trans htaken))
      · exact .inr ⟨htaken.symm.trans huntouched, hsettled.later h.closed hextends hfinished⟩

/-- **Settling a promise of a graph.** Where it and the promises below are as at first or have the
outcomes that they mean, it comes to what it means. -/
theorem settlePromise_does (hlawful : graph.Lawful levels start)
    (hwhole : start.heap.Closed fun _ => False) {within : Nat} {ref : Ref .promise}
    (hnode : graph.node ref) (hwithin : graph.rank ref < within)
    (hready : graph.Ready start (graph.rank ref + 1) m) :
    graph.Does start m (settlePromise (Settler.calling (invoke levels)) within ref)
      fun last outcome => outcome.Means start last (graph.meaning start.heap ref) := by
  induction within generalizing ref m with
  | zero => exact absurd hwithin (Nat.not_lt_zero _)
  | succ within ih =>
    have hgoes := hready.goesBack
    have hof_outcome {outcome : Outcome} (hget : m.heap.get ref = .ofOutcome outcome)
        (hmeans : outcome.Means start m (graph.meaning start.heap ref)) :
        graph.Does start m (settlePromise (Settler.calling (invoke levels)) (within + 1) ref)
          fun last outcome => outcome.Means start last (graph.meaning start.heap ref) :=
      ⟨outcome, m, settlePromise_of_outcome hget, .refl hgoes.closed, hmeans⟩
    rcases hready.nodes ref hnode (Nat.lt_succ_self _) with hfirst | ⟨outcome, hget, hmeans⟩
    case inr => exact hof_outcome hget hmeans
    case inl =>
      rcases (start.heap.get ref).outcome_or_pending with ⟨outcome, hget⟩ | ⟨reaction, hget⟩
      · exact hof_outcome (hfirst.trans hget) (meaning_of_outcome hwhole hgoes.grows hget)
      · -- The promises below have lower ranks, so what they come to is known by induction.
        have hbelow : graph.Ready start (graph.rank ref) m :=
          ⟨hgoes, fun other hother hrank => hready.nodes other hother (Nat.lt_succ_of_lt hrank)⟩
        have hsettle {m : Machine} {other : Ref .promise} (hother : graph.Below ref other)
            (hready : graph.Ready start (graph.rank ref) m) :=
          ih hother.1 (Nat.lt_of_lt_of_le hother.2 (Nat.le_of_lt_succ hwithin))
            ⟨hready.goesBack, fun lower hlower hrank => hready.nodes lower hlower
              (Nat.lt_of_le_of_lt (Nat.le_of_lt_succ hrank) hother.2)⟩
        have hpending := hfirst.trans hget
        obtain ⟨outcome, last, hrun, hprogress, hmeans⟩ :=
          react_does hlawful hsettle (hbelow.taken hlawful hnode hpending) hwhole hnode hget
        obtain ⟨hfinished, hlast⟩ := hprogress.finished hlawful hnode hgoes hfirst hmeans
        refine ⟨outcome, _, ?_, hfinished, hlast⟩
        rw [settlePromise_of_pending hpending, hrun]

/-! ### Sessions -/

section

variable {first session : Session}

/-- A session that was asked for nothing but promises of a graph, all of which are as at first or
have the outcomes that they mean. -/
structure Graph.Asked (graph : Graph) (first session : Session) : Prop where
  ready : ∀ rank, graph.Ready first.machine rank session.machine

theorem Graph.Asked.nothing (hwhole : session.Whole) : graph.Asked session session :=
  ⟨fun _ => ⟨⟨rfl, .refl _, hwhole.heap, fun _ _ _ => rfl⟩, fun _ _ _ => .inl rfl⟩⟩

/-- One more promise is settled. -/
theorem Graph.Asked.settle (h : graph.Asked first session) (hwhole : first.Whole)
    (hlawful : graph.Lawful levels first.machine) {ref : Ref .promise} (hnode : graph.node ref) :
    ∃ outcome next, (Step.settle levels (.promise ref)).run session = some (outcome, next) ∧
      graph.Asked first next ∧
      outcome.shape first.heap next.heap = graph.meaning first.heap ref := by
  obtain ⟨outcome, last, hrun, hprogress, hmeans⟩ :=
    settlePromise_does hlawful hwhole.heap hnode (hlawful.deep ref hnode) (h.ready _)
  refine ⟨outcome, ⟨last, session.scope⟩, ?_,
    ⟨fun rank => hprogress.ready hlawful (h.ready rank)⟩, hmeans.shape⟩
  have hsettled : Script.settle (invoke levels) levels (.promise ref) session.machine =
      (.ok outcome, last) :=
    hrun
  rw [Step.settle_apply, hsettled]

/-- Some promises are settled one after the other. -/
theorem Graph.Asked.settles (h : graph.Asked first session) (hwhole : first.Whole)
    (hlawful : graph.Lawful levels first.machine) {refs : List (Ref .promise)}
    (hnodes : ∀ ref ∈ refs, graph.node ref) :
    ∃ outcomes next,
      (refs.mapM fun ref => Step.settle levels (.promise ref)).run session =
        some (outcomes, next) ∧ graph.Asked first next := by
  induction refs generalizing session with
  | nil => exact ⟨[], session, rfl, h⟩
  | cons ref rest ih =>
    obtain ⟨outcome, middle, hrun, hmiddle, -⟩ :=
      h.settle hwhole hlawful (hnodes ref List.mem_cons_self)
    obtain ⟨outcomes, next, hrest, hnext⟩ :=
      ih hmiddle fun other hmem => hnodes other (List.mem_cons_of_mem _ hmem)
    refine ⟨outcome :: outcomes, next, ?_, hnext⟩
    rw [List.mapM_cons]
    refine Step.run_bind_eq_some_iff.mpr ⟨outcome, middle, hrun, ?_⟩
    exact Step.run_bind_eq_some_iff.mpr ⟨outcomes, next, hrest, rfl⟩

/-- **Settling comes to what promises mean.** In a graph of promises without cycles, whose handlers
are pure, what a promise means is told by recursion. Whatever promises of the graph were settled
before, in whatever order, settling a promise comes to an end with an outcome of that shape. -/
theorem settles_to_meaning (hwhole : session.Whole)
    (hlawful : graph.Lawful levels session.machine) :
    (∀ ref, graph.node ref → graph.meaning session.heap ref =
      match session.heap.get ref with
      | .fulfilled value => .ok (.known (.value value))
      | .rejected reason => .error (.known (.value reason))
      | .pending reaction => graph.worked (graph.meaning session.heap) reaction) ∧
    ∀ (earlier : List (Ref .promise)) (ref : Ref .promise),
      (∀ other ∈ earlier, graph.node other) → graph.node ref →
      ∃ outcomes middle outcome next,
        (earlier.mapM fun other => Step.settle levels (.promise other)).run session =
          some (outcomes, middle) ∧
        (Step.settle levels (.promise ref)).run middle = some (outcome, next) ∧
        outcome.shape session.heap next.heap = graph.meaning session.heap ref := by
  refine ⟨fun ref hnode => hlawful.meaning_eq hnode, fun earlier ref hearlier hnode => ?_⟩
  obtain ⟨outcomes, middle, hbefore, hasked⟩ :=
    (Graph.Asked.nothing hwhole).settles hwhole hlawful hearlier
  obtain ⟨outcome, next, hrun, -, hshape⟩ := hasked.settle hwhole hlawful hnode
  exact ⟨outcomes, middle, outcome, next, hbefore, hrun, hshape⟩

end

/-! ### A graph of promises -/

/-- The function that tells whether a value is truthy changes nothing. -/
theorem boolean_pure {function : Ref .callable}
    (hthere : function.index < start.heap.count .callable)
    (hget : start.heap.get function = .builtin .boolean) (ref : Ref .promise) {argument : Value}
    (hanswer : graph.answer (.callable function) (.known (.value argument)) =
      .gives (.known (.value (.bool argument.isTruthy)))) :
    graph.Pure (levels + 1) start ref (.callable function) (.known (.value argument)) := by
  have hrun (m : Machine) (hgoes : start.GoesBack m) (value : Value) :
      invoke (levels + 1) (.callable function) [value] m = (.ok (.bool value.isTruthy), m) := by
    have hkept := hgoes.same function (by decide) hthere
    rw [invoke_builtin (hkept.trans hget)]
    rfl
  refine ⟨fun other hother => ?_, fun m hgoes value _ _ {kind} found _ => ?_,
    fun m hgoes value _ hvalue => ?_⟩
  · rw [hanswer] at hother
    cases hother
  · rw [hrun m hgoes]
  · obtain rfl : value = argument := Part.value.inj (eq_of_shape_known hvalue)
    rw [hanswer, hrun m hgoes]
    exact ⟨_, rfl, fun inner heq => (by cases heq), shape_of_known rfl _⟩

/-- Three promises that wait for those before them; handlers find their arguments truthy. -/
def Graph.ofThree : Graph where
  node ref := ref.index < 3
  rank ref := ref.index
  answer _ _ := .gives (.known (.value (.bool true)))

theorem Graph.ofThree_lawful {function : Ref .callable}
    (hcount : start.heap.count .promise = 3) (hthere : function.index < start.heap.count .callable)
    (hfunction : start.heap.get function = .builtin .boolean)
    (hfirst : start.heap.get (⟨0⟩ : Ref .promise) = .fulfilled (.string "a"))
    (hsecond : start.heap.get (⟨1⟩ : Ref .promise) =
      .pending (.andThen ⟨0⟩ (some (.callable function)) none))
    (hthird : start.heap.get (⟨2⟩ : Ref .promise) =
      .pending (.all [.promise ⟨1⟩, .promise ⟨0⟩])) :
    Graph.ofThree.Lawful (levels + 3) start := by
  have hpending (ref : Ref .promise) (reaction : Reaction) (hnode : Graph.ofThree.node ref)
      (hget : start.heap.get ref = .pending reaction) :
      (ref = ⟨1⟩ ∧ reaction = .andThen ⟨0⟩ (some (.callable function)) none) ∨
        (ref = ⟨2⟩ ∧ reaction = .all [.promise ⟨1⟩, .promise ⟨0⟩]) := by
    have hcases : ref = ⟨0⟩ ∨ ref = ⟨1⟩ ∨ ref = ⟨2⟩ := by
      obtain ⟨index⟩ := ref
      change index < 3 at hnode
      simp only [Ref.mk.injEq]
      omega
    rcases hcases with rfl | rfl | rfl
    · rw [hfirst] at hget
      cases hget
    · rw [hsecond] at hget
      cases hget
      exact .inl ⟨rfl, rfl⟩
    · rw [hthird] at hget
      cases hget
      exact .inr ⟨rfl, rfl⟩
  have hbelow {lower higher : Nat} (h : lower < higher) (hhigher : higher ≤ 3) :
      Graph.ofThree.Below ⟨higher⟩ ⟨lower⟩ :=
    ⟨Nat.lt_of_lt_of_le h hhigher, h⟩
  have hmeans : Graph.ofThree.meaning start.heap ⟨0⟩ = .ok (.known (.value (.string "a"))) := by
    rw [Graph.meaning, Graph.meaningWithin, hfirst]
  refine ⟨fun ref hnode => ?_, fun ref hnode => ?_, fun ref reaction hnode hget => ?_,
    fun ref source onFulfilled onRejected handler argument hnode hget hhandler hargument => ?_,
    fun ref source onFulfilled onRejected handler argument hnode hget hhandler _ => ?_⟩
  · rw [hcount]
    exact hnode
  · exact Nat.lt_of_lt_of_le hnode (Nat.le_add_left 3 levels)
  · rcases hpending ref reaction hnode hget with ⟨rfl, rfl⟩ | ⟨rfl, rfl⟩
    · refine ⟨fun heq => (by cases heq), fun source hmem => ?_⟩
      cases List.mem_singleton.mp hmem
      exact hbelow (by decide) (by decide)
    · refine ⟨fun heq => (by cases heq), fun source hmem => ?_⟩
      rcases List.mem_pair.mp hmem with rfl | rfl <;>
        exact hbelow (by decide) (by decide)
  · rcases hpending ref _ hnode hget with ⟨rfl, hreaction⟩ | ⟨rfl, hreaction⟩ <;> cases hreaction
    cases hhandler
    rw [hmeans] at hargument
    cases hargument
    exact boolean_pure hthere hfunction _ rfl
  · rcases hpending ref _ hnode hget with ⟨rfl, hreaction⟩ | ⟨rfl, hreaction⟩ <;> cases hreaction
    cases hhandler

/-- Promises that wait for each other: whatever of them is settled before, the last one is fulfilled
with an array of what the others are fulfilled with. -/
theorem settles_to_meaning_of_all :
    ∃ session, ((Step.evaluate amplyManyLevels
        "let p = Promise.resolve('a'); Promise.all([p.then(Boolean), p])").run
          Session.new).map Prod.snd = some session ∧
      ∀ earlier : List (Ref .promise), (∀ other ∈ earlier, other.index < 3) →
      ∃ outcomes middle outcome next,
        (earlier.mapM fun other => Step.settle amplyManyLevels (.promise other)).run session =
          some (outcomes, middle) ∧
        (Step.settle amplyManyLevels (.promise ⟨2⟩)).run middle = some (outcome, next) ∧
        outcome.shape session.heap next.heap =
          .ok (.array [.known (.value (.bool true)), .known (.value (.string "a"))]) := by
  have hstates : ((Step.evaluate amplyManyLevels
      "let p = Promise.resolve('a'); Promise.all([p.then(Boolean), p])").run
        Session.new).map (fun found =>
          (found.2.heap.count .promise, found.2.heap.count .callable,
            [(⟨0⟩ : Ref .promise), ⟨1⟩, ⟨2⟩].map found.2.heap.get,
            Callable.builtin? (found.2.heap.get (⟨10⟩ : Ref .callable)))) =
      some (3, 25, [.fulfilled (.string "a"),
        .pending (.andThen ⟨0⟩ (some (.callable ⟨10⟩)) none),
        .pending (.all [.promise ⟨1⟩, .promise ⟨0⟩])], some .boolean) := by
    decide +kernel
  obtain ⟨⟨answer, session⟩, hrun, hsession⟩ := Option.map_eq_some_iff.mp hstates
  have hwhole : session.Whole := (Step.evaluate_kept Session.whole_new hrun).closed
  simp only [List.map_cons, List.map_nil, Prod.mk.injEq, List.cons.injEq] at hsession
  obtain ⟨hcount, hfunctions, ⟨hfirst, hsecond, hthird, -⟩, hboolean⟩ := hsession
  have hlawful : Graph.ofThree.Lawful amplyManyLevels session.machine :=
    Graph.ofThree_lawful hcount (hfunctions.symm ▸ by decide) (Callable.eq_of_builtin? hboolean)
      hfirst hsecond hthird
  refine ⟨session, by rw [hrun]; rfl, fun earlier hearlier => ?_⟩
  obtain ⟨outcomes, middle, outcome, next, hbefore, hsettled, hshape⟩ :=
    (settles_to_meaning hwhole hlawful).2 earlier ⟨2⟩ hearlier (show 2 < 3 by decide)
  refine ⟨outcomes, middle, outcome, next, hbefore, hsettled, hshape.trans ?_⟩
  have hmeans := (settles_to_meaning hwhole hlawful).1
  have hvalue : Graph.ofThree.meaning session.heap ⟨0⟩ = .ok (.known (.value (.string "a"))) :=
    (hmeans ⟨0⟩ (show 0 < 3 by decide)).trans (by rw [hfirst])
  have hresult : Graph.ofThree.meaning session.heap ⟨1⟩ = .ok (.known (.value (.bool true))) := by
    rw [hmeans ⟨1⟩ (show 1 < 3 by decide), hsecond]
    dsimp only [Graph.worked]
    rw [hvalue]
    rfl
  rw [hmeans ⟨2⟩ (show 2 < 3 by decide), hthird]
  dsimp only [Graph.worked]
  rw [List.mapM_cons, List.mapM_cons, Value.meaning, Value.meaning, hresult, hvalue]
  rfl

end Doctest.Script
