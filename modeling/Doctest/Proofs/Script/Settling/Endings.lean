import Doctest.Proofs.Script.Nesting
import Doctest.Proofs.Script.Settling.Courses
import Mathlib.Data.Finset.Card
import Mathlib.Order.Filter.AtTopBot.Basic

/-!
# Settling comes to an end

A promise whose work was taken is being settled until it has an outcome, and it never gets work
again. So however promises wait for each other, there are fewer and fewer of them whose work can be
taken, and settling comes to an end if all handlers do that it calls and no promises are made.
-/

namespace Doctest.Script

open Eval Filter Relation

/-! ### Promises with work to be taken -/

/-- Whether there is work to be taken: the promise has no outcome and is not being settled. -/
def PromiseState.isWaiting : PromiseState → Bool
  | .pending .running | .fulfilled _ | .rejected _ => false
  | .pending _ => true

/-- There is an outcome. -/
def PromiseState.IsSettled (state : PromiseState) : Prop :=
  ∃ outcome, state = .ofOutcome outcome

/-- No work is put in, and an outcome is not taken away. -/
structure PromiseState.Fades (state later : PromiseState) : Prop where
  waits : later.isWaiting = true → state.isWaiting = true
  settled : state.IsSettled → later.IsSettled

namespace PromiseState

variable {state middle last : PromiseState}

theorem isWaiting_pending (reaction : Reaction) :
    (pending reaction).isWaiting = decide (reaction ≠ .running) := by
  cases reaction <;> rfl

theorem isWaiting_ofOutcome (outcome : Outcome) : (ofOutcome outcome).isWaiting = false := by
  cases outcome <;> rfl

theorem isSettled_ofOutcome (outcome : Outcome) : (ofOutcome outcome).IsSettled :=
  ⟨outcome, rfl⟩

theorem not_isSettled_pending (reaction : Reaction) : ¬ (pending reaction).IsSettled := by
  rintro ⟨_ | _, h⟩ <;> cases h

theorem Fades.refl (state : PromiseState) : state.Fades state :=
  ⟨id, id⟩

theorem Fades.trans (h : state.Fades middle) (hlast : middle.Fades last) : state.Fades last :=
  ⟨fun hwaits => h.waits (hlast.waits hwaits), fun hsettled => hlast.settled (h.settled hsettled)⟩

/-- Of a promise that waits to be resolved there is nothing to keep. -/
theorem fades_unresolved (later : PromiseState) : (pending .unresolved).Fades later :=
  ⟨fun _ => rfl, fun h => (not_isSettled_pending _ h).elim⟩

end PromiseState

/-- A step of an evaluation puts no work into a promise that there is. -/
theorem Heap.Step.fades {heap later : Heap} (h : heap.Step later) (ref : Ref .promise) :
    (heap.get ref).Fades (later.get ref) := by
  cases h with
  | alloc cell hkind =>
    rw [Heap.get_alloc_of_ne _ _ _ hkind.symm]
    exact .refl _
  | modify changed f hkind =>
    rw [Heap.get_modify_of_ne _ _ _ _ hkind.symm]
    exact .refl _
  | make hmade =>
    rw [Heap.get_alloc]
    split
    case isTrue hnew =>
      rw [Heap.get_of_le _ _ (Nat.le_of_eq hnew.symm)]
      exact PromiseState.fades_unresolved _
    case isFalse => exact .refl _
  | resolve hwaits hresolved =>
    rw [Heap.get_modify]
    split
    case isTrue hsame =>
      rw [← hsame.1, hwaits]
      exact PromiseState.fades_unresolved _
    case isFalse => exact .refl _

theorem Heap.fades_of_steps {start last : Heap} (h : ReflTransGen Heap.Step start last)
    (ref : Ref .promise) : (start.get ref).Fades (last.get ref) := by
  induction h with
  | refl => exact .refl _
  | tail _ hstep ih => exact ih.trans (hstep.fades ref)

/-- The promises of a heap with work to be taken. -/
def Heap.waiting (heap : Heap) : Finset Nat :=
  {index ∈ Finset.range (heap.count .promise) | (heap.get (⟨index⟩ : Ref .promise)).isWaiting}

theorem Heap.card_waiting_le {heap later : Heap}
    (hcount : later.count .promise = heap.count .promise)
    (h : ∀ ref : Ref .promise, (later.get ref).isWaiting = true → (heap.get ref).isWaiting = true) :
    later.waiting.card ≤ heap.waiting.card := by
  refine Finset.card_le_card fun index hmem => ?_
  obtain ⟨hthere, hwaits⟩ := Finset.mem_filter.mp hmem
  exact Finset.mem_filter.mpr ⟨hcount ▸ hthere, h ⟨index⟩ hwaits⟩

/-- Where work is taken, there is one promise less with work to be taken. -/
theorem Heap.card_waiting_taken {heap : Heap} {ref : Ref .promise} {reaction : Reaction}
    (hthere : ref.index < heap.count .promise) (hget : heap.get ref = .pending reaction)
    (hreaction : reaction ≠ .running) :
    (heap.taken ref).waiting.card < heap.waiting.card := by
  have hmem : ref.index ∈ heap.waiting := by
    refine Finset.mem_filter.mpr ⟨Finset.mem_range.mpr hthere, ?_⟩
    change (heap.get ref).isWaiting = true
    rw [hget, PromiseState.isWaiting_pending]
    exact decide_eq_true hreaction
  refine Finset.card_lt_card (Finset.ssubset_iff_of_subset (fun index hindex => ?_) |>.mpr
    ⟨ref.index, hmem, fun hindex => ?_⟩)
  · obtain ⟨hcount, hwaits⟩ := Finset.mem_filter.mp hindex
    rw [Heap.count_modify] at hcount
    rw [Heap.get_modify] at hwaits
    split at hwaits
    case isTrue => cases hwaits
    case isFalse => exact Finset.mem_filter.mpr ⟨hcount, hwaits⟩
  · have hwaits := (Finset.mem_filter.mp hindex).2
    rw [Heap.get_modify, if_pos ⟨rfl, hthere⟩] at hwaits
    cases hwaits

/-! ### What a course leaves behind -/

/-- Whether the work of a promise is taken out. The mark that it is being done is no work. -/
def Event.takes (ref : Ref .promise) : Event → Bool
  | .asked other (.ok reaction) => other = ref && reaction ≠ .running
  | .asked _ (.error _) | .called .. => false

/-- How often the work of a promise is taken out. -/
def takings (ref : Ref .promise) (events : List Event) : Nat :=
  events.countP (·.takes ref)

theorem takings_cons (ref : Ref .promise) (event : Event) (events : List Event) :
    takings ref (event :: events) = takings ref events + if event.takes ref then 1 else 0 :=
  List.countP_cons

theorem takings_append (ref : Ref .promise) (events rest : List Event) :
    takings ref (events ++ rest) = takings ref events + takings ref rest :=
  List.countP_append

/-- What happens to promises in a course: there are no new ones, work is taken out of those that had
some, and those that were asked for it have outcomes at the end. -/
structure Machine.Proceeds (start : Machine) (events : List Event) (last : Machine) : Prop where
  grows : start.heap.Grows last.heap
  closed : last.heap.Closed fun _ => False
  count : last.heap.count .promise = start.heap.count .promise
  takes : ∀ ref : Ref .promise, takings ref events + (last.heap.get ref).isWaiting.toNat ≤
    (start.heap.get ref).isWaiting.toNat
  settled : ∀ ref : Ref .promise, (start.heap.get ref).IsSettled → (last.heap.get ref).IsSettled
  asked : ∀ (ref : Ref .promise) found, .asked ref found ∈ events → (last.heap.get ref).IsSettled

namespace Machine.Proceeds

variable {start middle last : Machine} {events rest : List Event}

theorem trans (h : start.Proceeds events middle) (hrest : middle.Proceeds rest last) :
    start.Proceeds (events ++ rest) last where
  grows := h.grows.trans hrest.grows
  closed := hrest.closed
  count := hrest.count.trans h.count
  takes ref := by
    have hfirst := h.takes ref
    have hsecond := hrest.takes ref
    rw [takings_append]
    omega
  settled ref hsettled := hrest.settled ref (h.settled ref hsettled)
  asked ref found hmem := by
    rcases List.mem_append.mp hmem with hmem | hmem
    · exact hrest.settled ref (h.asked ref found hmem)
    · exact hrest.asked ref found hmem

/-- There are no more promises with work to be taken than before. -/
theorem card_waiting_le (h : start.Proceeds events last) :
    last.heap.waiting.card ≤ start.heap.waiting.card := by
  refine Heap.card_waiting_le h.count fun ref hwaits => ?_
  have htakes := h.takes ref
  rw [hwaits] at htakes
  cases hstart : (start.heap.get ref).isWaiting with
  | true => rfl
  | false =>
    rw [hstart] at htakes
    exact absurd htakes (by simp)

/-- Evaluating a script, where no promise is made and none is asked. -/
theorem of_steps (hgrows : start.heap.Grows last.heap) (hclosed : last.heap.Closed fun _ => False)
    (hcount : last.heap.count .promise = start.heap.count .promise)
    (hpath : ReflTransGen Heap.Step start.heap last.heap)
    (hevents : ∀ event ∈ events, ∃ handler value m, event = .called handler value m) :
    start.Proceeds events last where
  grows := hgrows
  closed := hclosed
  count := hcount
  takes ref := by
    have hnone : takings ref events = 0 := by
      refine List.countP_eq_zero.mpr fun event hmem => ?_
      obtain ⟨handler, value, m, rfl⟩ := hevents event hmem
      exact Bool.false_ne_true
    have hfades := (Heap.fades_of_steps hpath ref).waits
    rw [hnone, Nat.zero_add]
    revert hfades
    cases (last.heap.get ref).isWaiting <;> cases (start.heap.get ref).isWaiting <;> simp
  settled ref := (Heap.fades_of_steps hpath ref).settled
  asked ref found hmem := by
    obtain ⟨_, _, _, heq⟩ := hevents _ hmem
    cases heq

/-- A promise that has an outcome is asked. -/
theorem of_outcome {ref : Ref .promise} {outcome : Outcome}
    (hclosed : start.heap.Closed fun _ => False) (hget : start.heap.get ref = .ofOutcome outcome) :
    start.Proceeds [.asked ref (.error outcome)] start where
  grows := .refl _
  closed := hclosed
  count := rfl
  takes other := Nat.le_of_eq (Nat.zero_add _)
  settled _ := id
  asked other found hmem := by
    cases List.mem_singleton.mp hmem
    rw [hget]
    exact PromiseState.isSettled_ofOutcome outcome

/-- A promise that is given its outcome is settled, and the others are as settled as before. -/
theorem isSettled_finished {heap : Heap} {ref other : Ref .promise} (outcome : Outcome)
    (hthere : ref.index < heap.count .promise)
    (h : ref ≠ other → (heap.get other).IsSettled) :
    ((heap.finished ref outcome).get other).IsSettled := by
  rw [Heap.get_modify]
  by_cases heq : ref = other
  · rw [if_pos ⟨heq, heq ▸ hthere⟩]
    exact PromiseState.isSettled_ofOutcome outcome
  · rw [if_neg fun hsame => heq hsame.1]
    exact h heq

/-- The work of a promise is taken and done, and the promise is given its outcome. -/
theorem settling {ref : Ref .promise} {reaction : Reaction} {outcome : Outcome}
    (hthere : ref.index < start.heap.count .promise)
    (hget : start.heap.get ref = .pending reaction)
    (h : Machine.Proceeds ⟨start.heap.taken ref, start.depth⟩ events last)
    (houtcome : Library.Outcome.Of (fun _ => False) last.heap outcome) :
    start.Proceeds (.asked ref (.ok reaction) :: events)
      ⟨last.heap.finished ref outcome, last.depth⟩ := by
  have hcount : last.heap.count .promise = start.heap.count .promise :=
    h.count.trans (start.heap.count_modify ref _)
  have hlast : ref.index < last.heap.count .promise := hcount ▸ hthere
  have hwithin : PromiseState.Within (last.heap.Has fun _ => False) (.ofOutcome outcome) := by
    cases outcome <;> exact houtcome
  have hkept : Kept Heap.SettleStep (fun _ => False) False _ last
      (Eval.change ref (fun _ => .ofOutcome outcome) last) :=
    .change h.closed (.finish last.heap ref outcome) id fun _ _ => hwithin
  have hown : (last.heap.finished ref outcome).get ref = .ofOutcome outcome := by
    rw [Heap.get_modify, if_pos ⟨rfl, hlast⟩]
  have hother {other : Ref .promise} (hne : ref ≠ other) :
      (last.heap.finished ref outcome).get other = last.heap.get other ∧
        (start.heap.taken ref).get other = start.heap.get other := by
    rw [Heap.get_modify, Heap.get_modify, if_neg fun hsame => hne hsame.1,
      if_neg fun hsame => hne hsame.1]
    exact ⟨rfl, rfl⟩
  refine ⟨(start.heap.grows_modify ref _).trans (h.grows.trans hkept.grows), hkept.closed, ?_,
    fun other => ?_, fun other hsettled => ?_, fun other found hmem => ?_⟩
  · rw [Heap.count_modify, hcount]
  · have htakes := h.takes other
    rw [takings_cons]
    by_cases heq : ref = other
    · subst heq
      rw [Heap.get_modify, if_pos ⟨rfl, hthere⟩] at htakes
      rw [hown, hget, PromiseState.isWaiting_pending, PromiseState.isWaiting_ofOutcome]
      have hnone : takings ref events = 0 :=
        Nat.le_zero.mp (Nat.le_trans (Nat.le_add_right _ _) htakes)
      rw [hnone]
      by_cases hrunning : reaction = .running <;> simp [Event.takes, hrunning]
    · rw [(hother heq).1, ← (hother heq).2, if_neg (by simp [Event.takes, heq])]
      exact htakes
  · exact isSettled_finished outcome hlast fun hne =>
      h.settled other ((hother hne).2.symm ▸ hsettled)
  · refine isSettled_finished outcome hlast fun hne => ?_
    rcases List.mem_cons.mp hmem with hfirst | hmem
    · cases hfirst
      exact absurd rfl hne
    · exact h.asked other found hmem

end Machine.Proceeds

/-- A machine without loose references, in which no more than so many promises have work to be
taken. -/
structure Machine.Waits (count : Nat) (m : Machine) : Prop where
  closed : m.heap.Closed fun _ => False
  few : m.heap.waiting.card ≤ count

theorem Machine.Proceeds.waits {start last : Machine} {events : List Event} {count : Nat}
    (h : start.Proceeds events last) (hstart : start.Waits count) : last.Waits count :=
  ⟨h.closed, Nat.le_trans h.card_waiting_le hstart.few⟩

/-! ### Enough levels -/

/-- If a handler is called, that comes to an end, and no promise is made meanwhile. -/
def Event.Ends : Event → Prop
  | .asked .. => True
  | .called handler value start => ∃ levels,
    (invoke levels handler [value] start).1 ≠ .error .exhausted ∧
      (invoke levels handler [value] start).2.heap.count .promise = start.heap.count .promise

/-- An evaluation for each number of levels that it is granted. -/
abbrev Leveled (α : Type) :=
  Nat → Tracing α

namespace Leveled

variable {α β : Type} {start : Machine} {good : Machine → α → Prop}
  {more : Machine → β → Prop}

/-- Where there are enough levels, all handlers that are called come to an end. -/
def CallsEnd (x : Leveled α) (start : Machine) : Prop :=
  ∀ᶠ levels in atTop, ∀ event ∈ (x levels start).events, event.Ends

/-- Where there are enough levels, more of them change nothing. -/
def Comes (x : Leveled α) (start : Machine) (course : Course α) : Prop :=
  ∀ᶠ levels in atTop, x levels start = course

/-- An evaluation that comes to an end if all handlers do that it calls, and what it gives. -/
def Finishes (x : Leveled α) (start : Machine) (good : Machine → α → Prop) : Prop :=
  CallsEnd x start → ∃ a last events, Comes x start ⟨.ok a, last, events⟩ ∧
    start.Proceeds events last ∧ good last a

theorem Finishes.bind {x : Leveled α} {f : α → Leveled β} (hx : Finishes x start good)
    (hf : ∀ a middle events, start.Proceeds events middle → good middle a →
      Finishes (f a) middle more) :
    Finishes (fun levels => x levels >>= fun a => f a levels) start
      more := by
  intro hcalls
  have hfirst : CallsEnd x start := by
    filter_upwards [hcalls] with levels hlevels event hmem
    refine hlevels event ?_
    rw [Tracing.bind_apply]
    revert hmem
    rcases x levels start with ⟨_ | a, middle, events⟩ <;> intro hmem
    case error => exact hmem
    case ok => exact List.mem_append_left _ hmem
  obtain ⟨a, middle, events, hcomes, hproceeds, ha⟩ := hx hfirst
  have hsecond : CallsEnd (f a) middle := by
    filter_upwards [hcalls, hcomes] with levels hlevels hcourse event hmem
    refine hlevels event ?_
    rw [Tracing.bind_apply, hcourse]
    exact List.mem_append_right _ hmem
  obtain ⟨b, last, rest, hrest, hends, hb⟩ := hf a middle events hproceeds ha hsecond
  refine ⟨b, last, events ++ rest, ?_, hproceeds.trans hends, hb⟩
  filter_upwards [hcomes, hrest] with levels hcourse hlast
  rw [Tracing.bind_apply, hcourse]
  dsimp only
  rw [hlast]
  rfl

theorem Finishes.pure {a : α} (hclosed : start.heap.Closed fun _ => False) (ha : good start a) :
    Finishes (fun _ => Pure.pure a) start good :=
  fun _ => ⟨a, start, [], .of_forall fun _ => rfl,
    .of_steps (.refl _) hclosed rfl .refl nofun, ha⟩

/-- An evaluation that gives a value whatever the levels are, and makes no promise. -/
theorem Finishes.lift {eval : Eval Value} {value : Value} {last : Machine}
    (hgives : GivesValue (fun _ => False) False start.heap eval)
    (hclosed : start.heap.Closed fun _ => False) (heval : eval start = (.ok value, last))
    (hcount : last.heap.count .promise = start.heap.count .promise) :
    Finishes (fun _ => liftM eval) start fun last value =>
      value.Of (fun _ => False) last.heap := by
  have hkept := hgives start (.refl _) hclosed
  have hcourse : (liftM eval : Tracing Value) start = ⟨.ok value, last, []⟩ := by
    rw [Tracing.lift_apply, heval]
  rw [heval] at hkept
  exact fun _ => ⟨value, last, [], .of_forall fun _ => hcourse,
    .of_steps hkept.grows hkept.closed hcount hkept.path nofun, hkept.found⟩

theorem newError_finishes (failure : Failure) (hclosed : start.heap.Closed fun _ => False) :
    Finishes (fun _ => liftM (Eval.newError failure)) start fun last value =>
      value.Of (fun _ => False) last.heap :=
  .lift (newError_gives failure) hclosed rfl rfl

theorem newArray_finishes {items : Array Value} (hclosed : start.heap.Closed fun _ => False)
    (hitems : ∀ item ∈ items, item.Of (fun _ => False) start.heap) :
    Finishes (fun _ => liftM (Eval.newArray items)) start fun last value =>
      value.Of (fun _ => False) last.heap :=
  .lift (newArray_gives hitems) hclosed rfl rfl

/-! ### What settling is made of -/

/-- An outcome of a machine. -/
abbrev OutcomeOf (last : Machine) (outcome : Outcome) : Prop :=
  Library.Outcome.Of (fun _ => False) last.heap outcome

/-- A handler that is called comes to an end if it does so within some levels. -/
theorem handle_finishes (deeper : Nat) (ref : Ref .promise) {handler value : Value}
    (hclosed : start.heap.Closed fun _ => False)
    (hhandler : handler.Of (fun _ => False) start.heap)
    (hvalue : value.Of (fun _ => False) start.heap) :
    Finishes
      (fun levels => (Settler.calling (invoke (levels + deeper))).tracing.handle ref handler value)
      start OutcomeOf := by
  intro hcalls
  obtain ⟨levels, hlevels⟩ := hcalls.exists
  obtain ⟨enough, hends, hcount⟩ := hlevels _ (List.mem_singleton_self _)
  have hargs : AllOf (fun _ => False) start.heap [value] := .cons hvalue fun _ hmem => by cases hmem
  have hkept := (invoke_keeps enough hhandler hargs).outcome start (.refl _) hclosed
  have hmore {levels : Nat} (h : enough ≤ levels) :
      (Settler.calling (invoke levels)).handle ref handler value start =
        Eval.outcome (invoke enough handler [value]) start := by
    have hinvoke := Pairing.eq_of_cutting (Pairing.cutting_invoke h handler [value]) hends
    change Eval.outcome (invoke levels handler [value]) start = _
    rw [Eval.outcome, Eval.outcome, hinvoke]
  have hlast : (Eval.outcome (invoke enough handler [value]) start).2.heap.count .promise =
      start.heap.count .promise := by
    rw [← hcount, Eval.outcome]
    rcases invoke enough handler [value] start with ⟨(_ | _ | _) | _, last⟩ <;> rfl
  have hok : ∃ outcome last,
      Eval.outcome (invoke enough handler [value]) start = (.ok outcome, last) := by
    have hfound := (invoke_keeps enough hhandler hargs start (.refl _) hclosed).found
    revert hends hfound
    rw [Eval.outcome]
    rcases invoke enough handler [value] start with ⟨(_ | _ | _) | _, last⟩ <;> intro hends hfound
    · exact ⟨_, _, rfl⟩
    · exact hfound.1.elim
    · exact absurd rfl hends
    · exact ⟨_, _, rfl⟩
  obtain ⟨outcome, last, hrun⟩ := hok
  rw [hrun] at hkept hlast
  refine ⟨outcome, last, [.called handler value start], ?_, ?_, ?_⟩
  · filter_upwards [eventually_ge_atTop enough] with levels hlevels
    rw [Settler.tracing_handle_apply, hmore (Nat.le_add_right_of_le hlevels), hrun]
  · refine .of_steps hkept.grows hkept.closed hlast hkept.path fun event hmem => ?_
    exact ⟨handler, value, start, List.mem_singleton.mp hmem⟩
  · have hfound := hkept.found
    cases outcome <;> exact hfound

section

variable {count : Nat} {settle : Nat → Ref .promise → Tracing Outcome}
  (hsettle : ∀ {m : Machine} {ref : Ref .promise}, m.Waits count →
    m.heap.Has (fun _ => False) ref.place →
    Finishes (fun levels => settle levels ref) m OutcomeOf)
include hsettle

theorem settleValue_finishes {value : Value} (hstart : start.Waits count)
    (hvalue : value.Of (fun _ => False) start.heap) :
    Finishes (fun levels => settleValue (settle levels) value) start
      OutcomeOf := by
  cases value with
  | promise ref => exact hsettle hstart hvalue
  | undefined | null | bool | number | string | array | object | error | callable =>
    exact .pure hstart.closed hvalue

theorem settleItems_finishes {items : List Value} (hstart : start.Waits count)
    (hitems : AllOf (fun _ => False) start.heap items) :
    Finishes (fun levels => settleItems (settle levels) items) start
      fun last found =>
        match found with
        | .ok values => AllOf (fun _ => False) last.heap values
        | .error reason => reason.Of (fun _ => False) last.heap := by
  induction items generalizing start with
  | nil => exact .pure hstart.closed fun _ hmem => by cases hmem
  | cons item rest ih =>
    refine .bind (settleValue_finishes hsettle hstart (hitems item List.mem_cons_self))
      fun found middle events hproceeds hfound => ?_
    cases found with
    | error reason => exact .pure hproceeds.closed hfound
    | ok value =>
      have hrest : AllOf (fun _ => False) middle.heap rest := fun other hmem =>
        (hitems other (List.mem_cons_of_mem _ hmem)).later hproceeds.grows
      refine .bind (ih (hproceeds.waits hstart) hrest) fun values last events hlast hvalues => ?_
      refine .pure hlast.closed ?_
      cases values with
      | error reason => exact hvalues
      | ok values => exact .cons (Value.Of.later hfound hlast.grows) hvalues

variable {handle : Nat → Value → Value → Tracing Outcome}
  (hhandle : ∀ {m : Machine} {handler value : Value}, m.Waits count →
    handler.Of (fun _ => False) m.heap → value.Of (fun _ => False) m.heap →
    Finishes (fun levels => handle levels handler value) m OutcomeOf)
include hhandle

theorem settleHandler_finishes {handler : Option Value} {value : Value} {otherwise : Outcome}
    (hstart : start.Waits count)
    (hhandler : ∀ function ∈ handler, function.Of (fun _ => False) start.heap)
    (hvalue : value.Of (fun _ => False) start.heap) (hotherwise : OutcomeOf start otherwise) :
    Finishes
      (fun levels => settleHandler (handle levels) (settle levels) handler value
        otherwise) start OutcomeOf := by
  cases handler with
  | none => exact .pure hstart.closed hotherwise
  | some handler =>
    refine .bind (hhandle hstart (hhandler handler rfl) hvalue)
      fun found middle events hproceeds hfound => ?_
    cases found with
    | ok result => exact settleValue_finishes hsettle (hproceeds.waits hstart) hfound
    | error reason => exact .pure hproceeds.closed hfound

/-- The work that a promise waits for comes to an end if settling the promises with work to be taken
does. -/
theorem react_finishes {reaction : Reaction} (hstart : start.Waits count)
    (hreaction : reaction.Within (start.heap.Has fun _ => False)) :
    Finishes (fun levels => react (handle levels) (settle levels) reaction)
      start OutcomeOf := by
  cases reaction with
  | running | unresolved =>
    exact .bind (newError_finishes _ hstart.closed)
      fun _ _ _ hproceeds herror => .pure hproceeds.closed herror
  | adopt source => exact hsettle hstart hreaction
  | andThen source onFulfilled onRejected =>
    obtain ⟨hsource, hfulfilled, hrejected⟩ := hreaction
    refine .bind (hsettle hstart hsource) fun found middle events hproceeds hfound => ?_
    have hmiddle := hproceeds.waits hstart
    cases found with
    | ok value =>
      exact settleHandler_finishes hsettle hhandle hmiddle
        (fun function hmem => Value.Of.later (hfulfilled function hmem) hproceeds.grows) hfound
        hfound
    | error reason =>
      exact settleHandler_finishes hsettle hhandle hmiddle
        (fun function hmem => Value.Of.later (hrejected function hmem) hproceeds.grows) hfound
        hfound
  | all items =>
    refine .bind (settleItems_finishes hsettle hstart hreaction)
      fun found middle events hproceeds hfound => ?_
    cases found with
    | error reason => exact .pure hproceeds.closed hfound
    | ok values =>
      have hvalues : ∀ value ∈ values.toArray, value.Of (fun _ => False) middle.heap :=
        fun value hmem => hfound value (List.mem_toArray.mp hmem)
      exact .bind (newArray_finishes hproceeds.closed hvalues)
        fun _ _ _ hlast harray => .pure hlast.closed harray

end

/-- Settling a promise where calls of handlers are granted so many levels more. -/
abbrev settles (deeper : Nat) (ref : Ref .promise) : Leveled Outcome :=
  fun levels => settlePromise (Settler.calling (invoke (levels + deeper))).tracing levels ref

/-- Doing the work of a promise where calls of handlers are granted so many levels more. -/
abbrev reacts (deeper : Nat) (ref : Ref .promise) (reaction : Reaction) : Leveled Outcome :=
  fun levels => react ((Settler.calling (invoke (levels + deeper))).tracing.handle ref)
    (fun other => settles deeper other levels) reaction

variable {deeper : Nat} {ref : Ref .promise}

theorem settles_of_outcome {outcome : Outcome} (hclosed : start.heap.Closed fun _ => False)
    (hget : start.heap.get ref = .ofOutcome outcome) :
    Finishes (settles deeper ref) start OutcomeOf := by
  have hof : OutcomeOf start outcome := by
    have hwithin : Cell.Within (start.heap.Has fun _ => False) (start.heap.get ref) :=
      hclosed.within ref id
    rw [hget] at hwithin
    cases outcome <;> exact hwithin
  refine fun _ => ⟨outcome, start, _, ?_, .of_outcome hclosed hget, hof⟩
  filter_upwards [eventually_ge_atTop 1] with levels hlevels
  obtain ⟨rest, rfl⟩ := Nat.exists_eq_add_of_le' hlevels
  exact tracing_of_outcome hget

/-- A promise is settled if its work comes to an end after that was taken. -/
theorem settles_of_pending {reaction : Reaction} (hthere : ref.index < start.heap.count .promise)
    (hget : start.heap.get ref = .pending reaction)
    (h : Finishes (reacts (deeper + 1) ref reaction) ⟨start.heap.taken ref, start.depth⟩
      OutcomeOf) :
    Finishes (settles deeper ref) start OutcomeOf := by
  intro hcalls
  have hcourse (levels : Nat) : settles deeper ref (levels + 1) start =
      (reacts (deeper + 1) ref reaction levels ⟨start.heap.taken ref, start.depth⟩).settled ref
        reaction := by
    have hlevels : levels + 1 + deeper = levels + (deeper + 1) := by omega
    rw [settles, tracing_of_pending hget, hlevels]
  have hwork : CallsEnd (reacts (deeper + 1) ref reaction)
      ⟨start.heap.taken ref, start.depth⟩ := by
    filter_upwards [(tendsto_add_atTop_nat 1).eventually hcalls] with levels hlevels event hmem
    refine hlevels event ?_
    rw [hcourse, Course.events_settled]
    exact List.mem_cons_of_mem _ hmem
  obtain ⟨outcome, last, events, hcomes, hproceeds, houtcome⟩ := h hwork
  refine ⟨outcome, _, _, ?_, hproceeds.settling hthere hget houtcome, ?_⟩
  · filter_upwards [(tendsto_sub_atTop_nat 1).eventually hcomes, eventually_ge_atTop 1]
      with levels hlevels hone
    obtain ⟨rest, rfl⟩ := Nat.exists_eq_add_of_le' hone
    rw [hcourse]
    exact congrArg (Course.settled ref reaction) hlevels
  · have hgrows := last.heap.grows_modify ref fun _ => PromiseState.ofOutcome outcome
    cases outcome <;> exact Value.Of.later houtcome hgrows

/-- **Settling a promise.** Where its work is taken, there is one fewer left whose work can be taken
while that is done. Where the work was taken already, or there is an outcome, no other promise is
settled. -/
theorem settles_finishes {count : Nat} (hstart : start.Waits count)
    (href : start.heap.Has (fun _ => False) ref.place) :
    Finishes (settles deeper ref) start OutcomeOf := by
  induction count using Nat.strongRecOn generalizing start ref deeper with
  | ind count ih =>
    rcases (start.heap.get ref).outcome_or_pending with ⟨outcome, hget⟩ | ⟨reaction, hget⟩
    · exact settles_of_outcome hstart.closed hget
    · refine settles_of_pending href.1 hget ?_
      obtain ⟨-, htaken, hreaction⟩ := taken_kept hstart.closed hget
      by_cases hrunning : reaction = .running
      · subst hrunning
        exact .bind (newError_finishes _ htaken)
          fun _ _ _ hproceeds herror => .pure hproceeds.closed herror
      · have hfewer := Heap.card_waiting_taken href.1 hget hrunning
        obtain ⟨rest, rfl⟩ : ∃ rest, count = rest + 1 :=
          ⟨count - 1, by have := hstart.few; omega⟩
        have hwaits : Machine.Waits rest ⟨start.heap.taken ref, start.depth⟩ :=
          ⟨htaken, Nat.le_of_lt_succ (Nat.lt_of_lt_of_le hfewer hstart.few)⟩
        exact react_finishes (fun hm hother => ih rest (Nat.lt_succ_self rest) hm hother)
          (fun hm hhandler hvalue => handle_finishes _ ref hm.closed hhandler hvalue) hwaits
          hreaction

end Leveled

/-! ### Sessions -/

/-- A script that makes a promise whose handler takes that promise out of an array. -/
def ownHandler : String :=
  "let a = []; let p = Promise.resolve('a').then(a.pop); a.push(p); p"

/-- To call the method gives the last item, which the array loses. -/
theorem invoke_pop {function : Ref .callable} {items : Ref .array} {item value : Value}
    {start : Machine} (hfunction : start.heap.get function = .builtin (.arrayMethod items .pop))
    (hitems : start.heap.get items = #[item]) (levels : Nat) :
    invoke (levels + 1) (.callable function) [value] start =
      (.ok item, ⟨start.heap.modify items Array.pop, start.depth⟩) := by
  have hcall : Library.call (invoke levels) (.arrayMethod items .pop) [value] start =
      (.ok ((start.heap.get items).back?.getD .undefined),
        ⟨start.heap.modify items Array.pop, start.depth⟩) := rfl
  rw [invoke_builtin hfunction, hcall, hitems]
  rfl

/-- Where a handler takes the promise that it is a handler of out of an array, the calls of handlers
come to an end. -/
theorem ends_of_pop {start : Machine} {source own : Ref .promise} {function : Ref .callable}
    {items : Ref .array} {value : Value} (hne : source ≠ own)
    (hthere : own.index < start.heap.count .promise)
    (hsource : start.heap.get source = .fulfilled value)
    (hown : start.heap.get own = .pending (.andThen source (some (.callable function)) none))
    (hfunction : start.heap.get function = .builtin (.arrayMethod items .pop))
    (hitems : start.heap.get items = #[.promise own]) (levels : Nat) :
    ∀ event ∈ (course levels (.promise own) start).events, event.Ends := by
  let taken : Machine := ⟨start.heap.taken own, start.depth⟩
  let popped : Machine := ⟨taken.heap.modify items Array.pop, start.depth⟩
  have hfound : taken.heap.get function = .builtin (.arrayMethod items .pop) := hfunction
  have hheld : taken.heap.get items = #[.promise own] := hitems
  have hpop (levels : Nat) :
      invoke (levels + 1) (.callable function) [value] taken = (.ok (.promise own), popped) :=
    invoke_pop hfound hheld levels
  have hends : Event.Ends (.called (.callable function) value taken) := by
    refine ⟨1, ?_⟩
    rw [hpop]
    exact ⟨nofun, rfl⟩
  have hgiven : taken.heap.get source = .ofOutcome (.ok value) := by
    rw [Heap.get_modify, if_neg fun h => hne h.1.symm, hsource]
    rfl
  have hrunning : popped.heap.get own = .pending .running := by
    change taken.heap.get own = _
    rw [Heap.get_modify, if_pos ⟨rfl, hthere⟩]
  intro event hmem
  match levels with
  | 0 => cases hmem
  | 1 =>
    change event ∈ (settlePromise (Settler.calling (invoke 1)).tracing 1 own start).events at hmem
    rw [tracing_of_pending hown, Course.events_settled] at hmem
    rcases List.mem_cons.mp hmem with rfl | hmem
    · trivial
    · cases hmem
  | levels + 2 =>
    change event ∈ (settlePromise (Settler.calling (invoke (levels + 2))).tracing (levels + 2) own
      start).events at hmem
    rw [tracing_of_pending hown, Course.events_settled] at hmem
    rcases List.mem_cons.mp hmem with rfl | hmem
    · trivial
    rw [react, Tracing.bind_apply, tracing_of_outcome hgiven] at hmem
    rcases List.mem_append.mp hmem with hmem | hmem
    · cases List.mem_singleton.mp hmem
      trivial
    dsimp only at hmem
    rw [settleHandler, Tracing.bind_apply, Settler.tracing_handle_apply] at hmem
    have hhandle : (Settler.calling (invoke (levels + 2))).handle own (.callable function) value
        taken = (.ok (.ok (.promise own)), popped) := by
      change Eval.outcome (invoke (levels + 2) (.callable function) [value]) taken = _
      rw [Eval.outcome, hpop]
    rw [hhandle] at hmem
    rcases List.mem_append.mp hmem with hmem | hmem
    · cases List.mem_singleton.mp hmem
      exact hends
    · change event ∈ (settlePromise (Settler.calling (invoke (levels + 2))).tracing (levels + 1) own
        popped).events at hmem
      rw [tracing_of_pending hrunning, Course.events_settled] at hmem
      rcases List.mem_cons.mp hmem with rfl | hmem
      · trivial
      · cases hmem

theorem exists_ownHandler :
    ∃ session, (Step.evaluate amplyManyLevels ownHandler).run Session.new =
        some (.ok (.promise ⟨1⟩), session) ∧
      session.heap.get (⟨0⟩ : Ref .promise) = .fulfilled (.string "a") ∧
      session.heap.get (⟨1⟩ : Ref .promise) =
        .pending (.andThen ⟨0⟩ (some (.callable ⟨24⟩)) none) ∧
      session.heap.get (⟨24⟩ : Ref .callable) = .builtin (.arrayMethod ⟨0⟩ .pop) ∧
      session.heap.get (⟨0⟩ : Ref .array) = #[.promise ⟨1⟩] := by
  have hstates : ((Step.evaluate amplyManyLevels ownHandler).run Session.new).map (fun found =>
      (found.1, [(⟨0⟩ : Ref .promise), ⟨1⟩].map found.2.heap.get,
        Callable.builtin? (found.2.heap.get (⟨24⟩ : Ref .callable)),
        found.2.heap.get (⟨0⟩ : Ref .array))) =
      some (.ok (.promise ⟨1⟩), [.fulfilled (.string "a"),
        .pending (.andThen ⟨0⟩ (some (.callable ⟨24⟩)) none)], some (.arrayMethod ⟨0⟩ .pop),
        #[.promise ⟨1⟩]) := by
    decide +kernel
  obtain ⟨⟨answer, session⟩, hrun, hsession⟩ := Option.map_eq_some_iff.mp hstates
  simp only [List.map_cons, List.map_nil, Prod.mk.injEq, List.cons.injEq] at hsession
  obtain ⟨rfl, ⟨hfirst, hsecond, -⟩, hfunction, hitems⟩ := hsession
  exact ⟨session, hrun, hfirst, hsecond, Callable.eq_of_builtin? hfunction, hitems⟩

end Doctest.Script
