import Doctest.Proofs.Script.Settling.Requests

/-!
# No promise within a promise

A promise is fulfilled with a value that is no promise, whichever way the value came: scripts make
and resolve promises in that way, and settling hands on what other promises are fulfilled with, what
is left of a value when all promises around it are settled, or a new array.
-/

namespace Doctest.Script

open Eval Relation

/-- A value that is no promise. -/
def Value.Plain (value : Value) : Prop :=
  ∀ ref, value ≠ .promise ref

/-- An outcome that is fulfilled with no promise. Reasons may be promises. -/
def Outcome.Plain (outcome : Outcome) : Prop :=
  ∀ value, outcome = .ok value → value.Plain

/-- A state that is not fulfilled with a promise. -/
def PromiseState.Plain (state : PromiseState) : Prop :=
  ∀ value, state = .fulfilled value → value.Plain

/-- A heap without promises that are fulfilled with promises. -/
def Heap.Plain (heap : Heap) : Prop :=
  ∀ ref : Ref .promise, (heap.get ref).Plain

theorem Outcome.plain_error (reason : Value) : Outcome.Plain (.error reason) :=
  nofun

theorem Outcome.Plain.ofOutcome {outcome : Outcome} (h : outcome.Plain) :
    (PromiseState.ofOutcome outcome).Plain := by
  cases outcome with
  | ok value =>
    rintro _ ⟨⟩
    exact h value rfl
  | error reason => nofun

theorem PromiseState.Made.plain {state : PromiseState} (h : state.Made) : state.Plain := by
  cases h with
  | fulfilled hne =>
    rintro _ ⟨⟩
    exact hne
  | unresolved | andThen | all | rejected => nofun

theorem PromiseState.Resolved.plain {state : PromiseState} (h : state.Resolved) :
    state.Plain := by
  cases h with
  | fulfilled hne =>
    rintro _ ⟨⟩
    exact hne
  | adopt | rejected => nofun

namespace Heap.Plain

variable {heap later : Heap}

theorem modify (h : heap.Plain) (ref : Ref .promise) {state : PromiseState} (hstate : state.Plain) :
    (heap.modify ref fun _ => state).Plain := by
  intro found
  rw [Heap.get_modify]
  split
  · exact hstate
  · exact h found

theorem step (h : heap.Plain) (hstep : heap.Step later) : later.Plain := by
  cases hstep with
  | alloc cell hkind =>
    intro ref
    rw [Heap.get_alloc_of_ne _ _ _ hkind.symm]
    exact h ref
  | modify changed f hkind =>
    intro ref
    rw [Heap.get_modify_of_ne _ _ _ _ hkind.symm]
    exact h ref
  | make hmade =>
    intro ref
    rw [Heap.get_alloc]
    split
    · exact hmade.plain
    · exact h ref
  | resolve hwaits hresolved => exact h.modify _ hresolved.plain

theorem steps (h : heap.Plain) (hsteps : ReflTransGen Heap.Step heap later) : later.Plain := by
  induction hsteps with
  | refl => exact h
  | tail _ hstep ih => exact ih.step hstep

end Heap.Plain

/-! ### Evaluations that keep heaps plain -/

/-- An evaluation that makes no promise be fulfilled with a promise, and what it gives then. -/
def Eval.Flattens {α : Type} (base : Heap) (result : α → Prop) (eval : Eval α) : Prop :=
  ∀ start : Machine, base.Grows start.heap → start.heap.Closed (fun _ => False) →
    start.heap.Plain →
      (eval start).2.heap.Plain ∧ ∀ a, (eval start).1 = .ok a → result a

namespace Eval.Flattens

variable {α β : Type} {base : Heap} {result : β → Prop}

theorem pure {b : β} (h : result b) : Flattens base result (Pure.pure b) := by
  intro start _ _ hplain
  refine ⟨hplain, ?_⟩
  rintro _ ⟨⟩
  exact h

theorem exhausted : Flattens base result (MonadExcept.throw Signal.exhausted) := by
  intro start _ _ hplain
  exact ⟨hplain, nofun⟩

/-- What scripts do makes no promise be fulfilled with a promise. -/
theorem of_gives {eval : Eval α} {found : Heap → α → Prop}
    (h : Gives (fun _ => False) False base found eval) :
    Flattens base (fun _ => True) eval :=
  fun start hbase hclosed hplain =>
    ⟨hplain.steps (h start hbase hclosed).path, fun _ _ => trivial⟩

/-- One evaluation after the other, of the first of which it is known what it keeps. -/
theorem bind {x : Eval α} {f : α → Eval β} {steps : Heap → Heap → Prop}
    {given : Heap → α → Prop} {good : α → Prop}
    (hkeeps : Eval.Keeps steps (fun _ => False) False base given x)
    (hx : Flattens base good x)
    (hf : ∀ heap a, base.Grows heap → given heap a → good a → Flattens heap result (f a)) :
    Flattens base result (x >>= f) := by
  intro start hbase hclosed hplain
  have hkept := hkeeps start hbase hclosed
  obtain ⟨hmiddle, hgood⟩ := hx start hbase hclosed hplain
  rw [bind_apply]
  rcases hrun : x start with ⟨signal | a, middle⟩
  case error =>
    rw [hrun] at hmiddle
    exact ⟨hmiddle, nofun⟩
  case ok =>
    rw [hrun] at hkept hmiddle hgood
    have hgrows := hbase.trans hkept.grows
    exact hf middle.heap a hgrows hkept.found (hgood a rfl) middle (.refl _) hkept.closed hmiddle

/-- Giving a promise a state. -/
theorem change (ref : Ref .promise) {state : PromiseState} (hstate : state.Plain) :
    Flattens base (fun _ => True) (Eval.change ref fun _ => state) :=
  fun _ _ _ hplain => ⟨hplain.modify ref hstate, fun _ _ => trivial⟩

/-- A new array is no promise. -/
theorem newArray (items : Array Value) : Flattens base Value.Plain (Eval.newArray items) := by
  intro start _ _ hplain
  let cell : Cell .array := items
  have hstep : start.heap.Step (start.heap.alloc .array cell).2 := .alloc cell (by decide) trivial
  refine ⟨hplain.step hstep, ?_⟩
  rintro _ ⟨⟩
  nofun

end Eval.Flattens

/-! ### Settling -/

theorem handle_flattens {base : Heap} {invoke : Invoke} (hinvoke : invoke.Keeps fun _ => False)
    (waiting : Ref .promise) {handler value : Value} (hhandler : handler.Of (fun _ => False) base)
    (hvalue : value.Of (fun _ => False) base) :
    Flattens base (fun _ => True) ((Settler.calling invoke).handle waiting handler value) := by
  have hargs : AllOf (fun _ => False) base [value] :=
    .cons hvalue fun _ hmem => by cases hmem
  exact .of_gives (hinvoke hhandler hargs).outcome

/-- A promise that has an outcome has one that is fulfilled with no promise. -/
theorem take_flattens {base : Heap} (invoke : Invoke) (ref : Ref .promise) :
    Flattens base (fun taken => ∀ outcome, taken = .error outcome → outcome.Plain)
      ((Settler.calling invoke).take ref) := by
  intro start _ _ hplain
  rw [take_apply]
  have hstate := hplain ref
  revert hstate
  cases start.heap.get ref with
  | fulfilled value =>
    intro hstate
    refine ⟨hplain, ?_⟩
    rintro _ ⟨⟩ _ ⟨⟩ _ ⟨⟩
    exact hstate value rfl
  | rejected reason =>
    intro _
    refine ⟨hplain, ?_⟩
    rintro _ ⟨⟩ _ ⟨⟩
    exact Outcome.plain_error reason
  | pending reaction =>
    intro _
    have hrunning : (PromiseState.pending .running).Plain := nofun
    refine ⟨hplain.modify ref hrunning, ?_⟩
    rintro _ ⟨⟩
    nofun

section

variable {base : Heap} {settle : Ref .promise → Eval Outcome}
  (hgives : ∀ {base : Heap} {ref : Ref .promise}, base.Has (fun _ => False) ref.place →
    GivesOutcome (fun _ => False) base (settle ref))
  (hsettle : ∀ {base : Heap} {ref : Ref .promise}, base.Has (fun _ => False) ref.place →
    Flattens base Outcome.Plain (settle ref))
include hsettle

theorem settleValue_flattens {value : Value} (h : value.Of (fun _ => False) base) :
    Flattens base Outcome.Plain (settleValue settle value) := by
  unfold settleValue
  split
  · exact hsettle h
  · rename_i hne
    refine .pure ?_
    rintro _ ⟨⟩
    exact hne

theorem settleHandler_flattens {invoke : Invoke} (hinvoke : invoke.Keeps fun _ => False)
    (waiting : Ref .promise) {handler : Option Value}
    (hhandler : ∀ value ∈ handler, value.Of (fun _ => False) base) {value : Value}
    (hvalue : value.Of (fun _ => False) base) {otherwise : Outcome}
    (hotherwise : otherwise.Plain) :
    Flattens base Outcome.Plain
      (settleHandler ((Settler.calling invoke).handle waiting) settle handler value otherwise) := by
  cases handler with
  | none => exact .pure hotherwise
  | some handler =>
    have hhandler := hhandler handler rfl
    refine .bind (handle_gives hinvoke waiting hhandler hvalue)
      (handle_flattens hinvoke waiting hhandler hvalue)
      fun heap found _ hfound _ => ?_
    cases found with
    | ok result => exact settleValue_flattens hsettle hfound
    | error reason => exact .pure (Outcome.plain_error _)

include hgives

theorem settleItems_flattens {items : List Value} (h : AllOf (fun _ => False) base items) :
    Flattens base (fun _ => True) (settleItems settle items) := by
  induction items generalizing base with
  | nil => exact .pure trivial
  | cons item rest ih =>
    have hitem := h item List.mem_cons_self
    have hrest : AllOf (fun _ => False) base rest := fun other hmem =>
      h other (List.mem_cons_of_mem _ hmem)
    refine .bind (settleValue_gives hgives hitem) (settleValue_flattens hsettle hitem)
      fun heap found hgrows _ _ => ?_
    cases found with
    | error reason => exact .pure trivial
    | ok value =>
      exact .bind (settleItems_gives hgives (hrest.later hgrows)) (ih (hrest.later hgrows))
        fun _ _ _ _ _ => .pure trivial

theorem react_flattens {invoke : Invoke} (hinvoke : invoke.Keeps fun _ => False)
    (waiting : Ref .promise) {reaction : Reaction}
    (h : reaction.Within (base.Has fun _ => False)) :
    Flattens base Outcome.Plain
      (react ((Settler.calling invoke).handle waiting) settle reaction) := by
  cases reaction with
  | running | unresolved =>
    exact .bind (newError_gives _) (.of_gives (newError_gives _)) fun _ _ _ _ _ =>
      .pure (Outcome.plain_error _)
  | adopt source => exact hsettle h
  | andThen source onFulfilled onRejected =>
    obtain ⟨hsource, hfulfilled, hrejected⟩ := h
    refine .bind (hgives hsource) (hsettle hsource) fun heap found hgrows hfound hplain => ?_
    cases found with
    | ok value =>
      exact settleHandler_flattens hsettle hinvoke waiting
        (fun handler hmem => Value.Of.later (hfulfilled handler hmem) hgrows) hfound hplain
    | error reason =>
      exact settleHandler_flattens hsettle hinvoke waiting
        (fun handler hmem => Value.Of.later (hrejected handler hmem) hgrows) hfound hplain
  | all items =>
    refine .bind (settleItems_gives hgives h) (settleItems_flattens hgives hsettle h)
      fun heap found _ hfound _ => ?_
    cases found with
    | error reason => exact .pure (Outcome.plain_error _)
    | ok values =>
      have hitems : ∀ value ∈ values.toArray, value.Of (fun _ => False) heap :=
        fun value hmem => hfound value (List.mem_toArray.mp hmem)
      have hgives : GivesValue (fun _ => False) False heap (Eval.newArray values.toArray) :=
        newArray_gives hitems
      refine .bind hgives (.newArray _) fun later array _ _ harray => .pure ?_
      rintro _ ⟨⟩
      exact harray

end

theorem settlePromise_flattens {base : Heap} {invoke : Invoke}
    (hinvoke : invoke.Keeps fun _ => False) (levels : Nat) {ref : Ref .promise}
    (href : base.Has (fun _ => False) ref.place) :
    Flattens base Outcome.Plain (settlePromise (Settler.calling invoke) levels ref) := by
  induction levels generalizing base ref with
  | zero => exact .exhausted
  | succ levels ih =>
    have hgives {base : Heap} {ref : Ref .promise} (href : base.Has (fun _ => False) ref.place) :=
      settlePromise_gives hinvoke levels href
    refine .bind (take_gives href) (take_flattens invoke ref) fun heap taken hgrows htaken hplain =>
      ?_
    cases taken with
    | error outcome => exact .pure (hplain outcome rfl)
    | ok reaction =>
      refine .bind (react_gives hgives (handle_gives hinvoke ref) htaken)
        (react_flattens hgives ih hinvoke ref htaken) fun later outcome hlater houtcome hplain => ?_
      have hfinish : Eval.Keeps Heap.SettleStep (fun _ => False) False later (fun _ _ => True)
          (Eval.change ref fun _ => .ofOutcome outcome) := by
        refine .change (fun _ => .finish _ _ _) href.2 fun last _ hlast _ => ?_
        cases outcome <;> exact Value.Of.later houtcome hlast
      exact .bind hfinish (.change ref hplain.ofOutcome) fun _ _ _ _ _ => .pure hplain

theorem settle_flattens {base : Heap} {invoke : Invoke} (hinvoke : invoke.Keeps fun _ => False)
    (levels : Nat) {value : Value} (h : value.Of (fun _ => False) base) :
    Flattens base Outcome.Plain (Script.settle invoke levels value) :=
  settleValue_flattens (settlePromise_flattens hinvoke levels) h

/-! ### Sessions -/

namespace Request

variable {levels : Nat} {session next : Session} {request : Request} {outcome : Outcome}

theorem plain_of_settle {value : Value} (hwhole : session.Whole) (hplain : session.heap.Plain)
    (hvalue : session.Holds value)
    (hrun : (Step.settle levels value).run session = some (outcome, next)) :
    next.heap.Plain ∧ outcome.Plain := by
  have hsettled := (Step.settle_run hrun).1
  have hends := settle_flattens (invoke_keeps levels) levels hvalue session.machine (.refl _)
    hwhole.heap hplain
  rw [hsettled] at hends
  exact ⟨hends.1, hends.2 outcome rfl⟩

theorem plain (hwhole : session.Whole) (hplain : session.heap.Plain)
    (hheld : request.Held session)
    (hrun : (request.step levels).run session = some (outcome, next)) : next.heap.Plain := by
  cases request with
  | evaluate source => exact hplain.steps (Step.evaluate_kept hwhole hrun).path
  | settle value => exact (plain_of_settle hwhole hplain hheld hrun).1

end Request

namespace Runs

variable {last : Session} {answered : List (Request × Outcome)} {moments : List Moment}

theorem plain (h : Runs Session.new answered moments last) : last.heap.Plain := by
  induction h with
  | nil =>
    intro ref
    rw [get_new]
    nofun
  | snoc hruns hheld hrun ih =>
    exact Request.plain (hruns.whole Session.whole_new) ih hheld hrun

/-- **Awaiting gives no promise.** Whatever a session was asked for, none of its promises is
fulfilled with a promise, and no value of the session settles as fulfilled with one. -/
theorem fulfilled_with_no_promise (h : Runs Session.new answered moments last) :
    (∀ (ref : Ref .promise) value, last.heap.get ref = .fulfilled value →
      ∀ inner, value ≠ .promise inner) ∧
    ∀ levels value found next, last.Holds value →
      (Step.settle levels value).run last = some (.ok found, next) →
      ∀ inner, found ≠ .promise inner := by
  refine ⟨fun ref value hget => h.plain ref value hget, ?_⟩
  intro levels value found next hvalue hrun
  have hwhole := h.whole Session.whole_new
  exact (Request.plain_of_settle hwhole h.plain hvalue hrun).2 found rfl

/-- A handler that gives a promise: what is fulfilled is what that promise is fulfilled with. -/
theorem fulfilled_with_no_promise_of_handler :
    ∃ answered moments last, Runs Session.new answered moments last ∧
      last.heap.get (⟨1⟩ : Ref .promise) = .fulfilled (.string "b") ∧
      ∀ inner, Value.string "b" ≠ .promise inner := by
  have hscript : ((do
      let answer ← Step.evaluate amplyManyLevels
        "Promise.resolve('a').then(() => Promise.resolve('b'))"
      let outcome ← Step.settle amplyManyLevels (.promise ⟨1⟩)
      return (answer, outcome) : Step (Outcome × Outcome)).run Session.new).map Prod.fst =
        some (.ok (.promise ⟨1⟩), .ok (.string "b")) := by
    decide +kernel
  obtain ⟨_, last, -, hruns⟩ := exists_of_script hscript
  have hget := hruns.get_of_answer Session.whole_new
    (List.mem_cons_of_mem _ List.mem_cons_self)
  exact ⟨_, _, last, hruns, hget, hruns.fulfilled_with_no_promise.1 ⟨1⟩ _ hget⟩

end Runs

end Doctest.Script
