import Doctest.Proofs.Script.Keeping.Sessions
import Doctest.Proofs.Script.Settling.Moments

/-!
# The lives of promises

What becomes of each promise while a value is settled. The work of a promise is taken once and then
it gets its outcome, unless it is met again while that work is being done: then it gets two
outcomes, the first of which is a rejection. Either way its handlers are called at most once.
-/

namespace Doctest.Script

open Eval Relation

/-- What a promise is at two moments, what settling did with it in between and how often handlers of
it were called. -/
inductive Life : PromiseState → List Work → Nat → PromiseState → Prop
  /-- Nothing happened to the promise. -/
  | still (state : PromiseState) : Life state [] 0 state
  /-- A script made the promise or resolved it. -/
  | formed {state : PromiseState} (h : state.Made ∨ state.Resolved) :
    Life (.pending .unresolved) [] 0 state
  /-- The promise was met while it was being settled. -/
  | met (reason : Value) :
    Life (.pending .running) [.began, .ended (.error reason)] 0 (.rejected reason)
  /-- The promise was settled. -/
  | settled {reaction : Reaction} (hreaction : reaction ≠ .running) {calls : Nat}
    (hcalls : calls ≤ 1) (outcome : Outcome) :
    Life (.pending reaction) [.began, .ended outcome] calls (.ofOutcome outcome)
  /-- The promise was settled, and met while it was. -/
  | settledTwice {reaction : Reaction} (hreaction : reaction ≠ .running) {calls : Nat}
    (hcalls : calls ≤ 1) (reason : Value) (outcome : Outcome) :
    Life (.pending reaction) [.began, .began, .ended (.error reason), .ended outcome] calls
      (.ofOutcome outcome)

/-- A promise has an outcome, or there is work to be done for it. -/
theorem PromiseState.outcome_or_pending (state : PromiseState) :
    (∃ outcome, state = .ofOutcome outcome) ∨ ∃ reaction, state = .pending reaction := by
  cases state with
  | pending reaction => exact .inr ⟨reaction, rfl⟩
  | fulfilled value => exact .inl ⟨.ok value, rfl⟩
  | rejected reason => exact .inl ⟨.error reason, rfl⟩

namespace Life

variable {first middle last : PromiseState} {done more : List Work} {calls others : Nat}

/-- A promise that is being settled can only be met. -/
theorem of_running (h : Life (.pending .running) done calls last) :
    calls = 0 ∧ (done = [] ∧ last = .pending .running ∨
      ∃ reason, done = [.began, .ended (.error reason)] ∧ last = .rejected reason) := by
  cases h with
  | still => exact ⟨rfl, .inl ⟨rfl, rfl⟩⟩
  | met reason => exact ⟨rfl, .inr ⟨reason, rfl, rfl⟩⟩
  | settled hreaction => exact absurd rfl hreaction
  | settledTwice hreaction => exact absurd rfl hreaction

/-- Nothing more happens to a promise with an outcome. -/
theorem of_outcome {outcome : Outcome} (h : Life (.ofOutcome outcome) done calls last) :
    done = [] ∧ calls = 0 ∧ last = .ofOutcome outcome := by
  cases outcome <;> cases h <;> exact ⟨rfl, rfl, rfl⟩

/-- What scripts make of a promise is not yet being settled. -/
theorem ne_running_of_formed (h : first.Made ∨ first.Resolved) : first ≠ .pending .running := by
  rintro rfl
  rcases h with h | h <;> cases h

/-- A promise that is not being settled is not being settled afterwards. -/
theorem ne_running (h : Life first done calls last) (hfirst : first ≠ .pending .running) :
    last ≠ .pending .running := by
  cases h with
  | still => exact hfirst
  | formed hformed => exact ne_running_of_formed hformed
  | met => nofun
  | settled _ _ outcome | settledTwice _ _ _ outcome => cases outcome <;> nofun

/-- Handlers of a promise are called at most once in its life. -/
theorem calls_le_one (h : Life first done calls last) : calls ≤ 1 := by
  cases h with
  | still | formed | met => exact Nat.zero_le 1
  | settled _ hcalls | settledTwice _ hcalls => exact hcalls

theorem trans (h : Life first done calls middle) (hrest : Life middle more others last) :
    Life first (done ++ more) (calls + others) last := by
  cases h with
  | still => simpa using hrest
  | formed hformed =>
    have hmiddle := ne_running_of_formed hformed
    have hunresolved : Reaction.unresolved ≠ .running := nofun
    cases hrest with
    | still => exact .formed hformed
    | formed hlast => exact .formed hlast
    | met => exact absurd rfl hmiddle
    | settled _ hcalls outcome =>
      rw [Nat.zero_add]
      exact .settled hunresolved hcalls outcome
    | settledTwice _ hcalls reason outcome =>
      rw [Nat.zero_add]
      exact .settledTwice hunresolved hcalls reason outcome
  | met reason =>
    change Life (.ofOutcome (.error reason)) _ _ _ at hrest
    obtain ⟨rfl, rfl, rfl⟩ := hrest.of_outcome
    exact .met reason
  | settled hreaction hcalls outcome =>
    obtain ⟨rfl, rfl, rfl⟩ := of_outcome hrest
    exact .settled hreaction hcalls outcome
  | settledTwice hreaction hcalls reason outcome =>
    obtain ⟨rfl, rfl, rfl⟩ := of_outcome hrest
    exact .settledTwice hreaction hcalls reason outcome

end Life

/-- A step of an evaluation settles no promise. -/
theorem Heap.Step.life {heap later : Heap} (h : heap.Step later) (ref : Ref .promise) :
    Life (heap.get ref) [] 0 (later.get ref) := by
  cases h with
  | alloc cell hkind =>
    rw [Heap.get_alloc_of_ne _ _ _ hkind.symm]
    exact .still _
  | modify changed f hkind =>
    rw [Heap.get_modify_of_ne _ _ _ _ hkind.symm]
    exact .still _
  | make hmade =>
    rw [Heap.get_alloc]
    split
    case isTrue hnew =>
      rw [Heap.get_of_le _ _ (Nat.le_of_eq hnew.symm)]
      exact .formed (.inl hmade)
    case isFalse => exact .still _
  | resolve hwaits hresolved =>
    rw [Heap.get_modify]
    split
    case isTrue hsame =>
      rw [← hsame.1, hwaits]
      exact .formed (.inr hresolved)
    case isFalse => exact .still _

theorem Life.of_steps {start last : Heap} (h : ReflTransGen Heap.Step start last)
    (ref : Ref .promise) : Life (start.get ref) [] 0 (last.get ref) := by
  induction h with
  | refl => exact .still _
  | tail _ hstep ih => exact ih.trans (hstep.life ref)

/-! ### All promises -/

/-- All promises have a life at some moments. So many calls of handlers of one promise `own` are
not counted in its life yet. -/
def Lived (own : Ref .promise) (calls : Nat) (start : Heap) (moments : List Moment) (last : Heap) :
    Prop :=
  ∀ ref, ∃ counted, Life (start.get ref) (works ref moments) counted (last.get ref) ∧
    handings ref moments = counted + if ref = own then calls else 0

section

variable {own ref : Ref .promise} {start middle last : Heap} {moments rest : List Moment}
  {calls others : Nat}

theorem Lived.of_steps (h : ReflTransGen Heap.Step start last) : Lived own 0 start [] last := by
  intro ref
  exact ⟨0, .of_steps h ref, by simp⟩

theorem Lived.life (h : Lived own 0 start moments last) (ref : Ref .promise) :
    Life (start.get ref) (works ref moments) (handings ref moments) (last.get ref) := by
  obtain ⟨counted, hlife, hcount⟩ := h ref
  rw [hcount, ite_self, Nat.add_zero]
  exact hlife

theorem Lived.trans (h : Lived own calls start moments middle)
    (hrest : Lived own others middle rest last) :
    Lived own (calls + others) start (moments ++ rest) last := by
  intro ref
  obtain ⟨n, hlife, hcount⟩ := h ref
  obtain ⟨m, hmore, hothers⟩ := hrest ref
  refine ⟨n + m, ?_, ?_⟩
  · rw [works_append]
    exact hlife.trans hmore
  · rw [handings_append, hcount, hothers]
    split <;> omega

/-- What is being settled is still being settled, or was met and rejected. -/
theorem Lived.running_or_rejected (h : Lived ref calls start moments last)
    (hstart : start.get ref = .pending .running) :
    last.get ref = .pending .running ∨ ∃ reason, last.get ref = .rejected reason := by
  obtain ⟨_, hlife, -⟩ := h ref
  rw [hstart] at hlife
  obtain ⟨-, ⟨-, hlast⟩ | ⟨reason, -, hlast⟩⟩ := hlife.of_running
  · exact .inl hlast
  · exact .inr ⟨reason, hlast⟩

/-- The heap in which the work of a promise has been taken. -/
abbrev Heap.taken (heap : Heap) (ref : Ref .promise) : Heap :=
  heap.modify ref fun _ => .pending .running

/-- The heap in which a promise has been given an outcome. -/
abbrev Heap.finished (heap : Heap) (ref : Ref .promise) (outcome : Outcome) : Heap :=
  heap.modify ref fun _ => .ofOutcome outcome

/-- The moments from when the work of a promise is taken to when the promise gets its outcome. -/
abbrev settling (start : Heap) (ref : Ref .promise) (moments : List Moment) (last : Heap)
    (outcome : Outcome) : List Moment :=
  [⟨.began ref, start.taken ref⟩] ++ moments ++ [⟨.ended ref outcome, last.finished ref outcome⟩]

theorem Moved.settling {reaction : Reaction} {outcome : Outcome}
    (hget : start.get ref = .pending reaction) (h : Moved (start.taken ref) moments last)
    (hlast : last.get ref = .pending .running ∨ ∃ reason, last.get ref = .rejected reason) :
    Moved start (settling start ref moments last outcome) (last.finished ref outcome) :=
  .trans (.trans (.single (.began hget)) h) (.single (.ended outcome hlast))

/-- The life of a promise that is settled, and of all others meanwhile. -/
theorem Lived.settling {outcome : Outcome} (hstart : ref.index < start.count .promise)
    (hlast : ref.index < last.count .promise) (h : Lived ref calls (start.taken ref) moments last)
    (hlife : Life (start.get ref) (.began :: works ref moments ++ [.ended outcome]) calls
      (.ofOutcome outcome)) :
    Lived own 0 start (settling start ref moments last outcome) (last.finished ref outcome) := by
  intro other
  obtain ⟨counted, hother, hcount⟩ := h other
  simp only [Heap.get_modify] at hother ⊢
  by_cases heq : other = ref
  · subst heq
    rw [if_pos ⟨rfl, hstart⟩] at hother
    obtain ⟨rfl, -⟩ := hother.of_running
    refine ⟨calls, ?_, ?_⟩
    · simpa [Act.work?, hlast] using hlife
    · simpa [Act.hands] using hcount
  · have hne : ¬ ref = other := fun h => heq h.symm
    rw [if_neg fun h => hne h.1] at hother ⊢
    refine ⟨counted, ?_, ?_⟩
    · simpa [Act.work?, hne] using hother
    · simpa [Act.hands, heq] using hcount

/-- The life of a promise whose work leads to its outcome. -/
theorem Lived.life_settled {reaction : Reaction} (hreaction : reaction ≠ .running)
    (hstart : ref.index < start.count .promise) (hget : start.get ref = .pending reaction)
    (h : Lived ref calls (start.taken ref) moments last) (hcalls : calls ≤ 1) (outcome : Outcome) :
    Life (start.get ref) (.began :: works ref moments ++ [.ended outcome]) calls
      (.ofOutcome outcome) := by
  obtain ⟨_, hlife, -⟩ := h ref
  rw [Heap.get_modify, if_pos ⟨rfl, hstart⟩] at hlife
  rw [hget]
  obtain ⟨-, ⟨hworks, -⟩ | ⟨reason, hworks, -⟩⟩ := hlife.of_running
  · rw [hworks]
    exact .settled hreaction hcalls outcome
  · rw [hworks]
    exact .settledTwice hreaction hcalls reason outcome

end

/-! ### Evaluations that note moments -/

variable {α β : Type}

/-- A noted evaluation does what a plain one does, and the moments it notes are those of the lives
of promises; handlers of `own` are called at most so often. -/
def Lives (own : Ref .promise) (bound : Nat) (base : Heap) (noted : Noting α) (plain : Eval α) :
    Prop :=
  ∀ (start : Machine) (before : List Moment), base.Grows start.heap →
    start.heap.Closed (fun _ => False) →
    ∃ moments,
      noted (start, before) = ((plain start).1, ((plain start).2, before ++ moments)) ∧
      Moved start.heap moments (plain start).2.heap ∧
      ∀ a, (plain start).1 = .ok a →
        ∃ calls ≤ bound, Lived own calls start.heap moments (plain start).2.heap

namespace Lives

variable {own : Ref .promise} {bound more : Nat} {base : Heap} {result : Heap → α → Prop}

/-- An evaluation of which nothing is noted. -/
theorem lift {eval : Eval α} (h : Gives (fun _ => False) False base result eval) :
    Lives own bound base (liftM eval) eval := by
  intro start before hbase hclosed
  have hpath := (h start hbase hclosed).path
  exact ⟨[], by rw [Noting.lift_apply, List.append_nil], .nil hpath,
    fun _ _ => ⟨0, Nat.zero_le bound, .of_steps hpath⟩⟩

theorem pure (a : α) : Lives own bound base (Pure.pure a) (Pure.pure a) := by
  have hgives : Gives (fun _ => False) False base (fun _ _ => True) (Pure.pure a : Eval α) :=
    .pure fun _ _ => trivial
  exact lift hgives

theorem mono {noted : Noting α} {plain : Eval α} (h : Lives own bound base noted plain)
    (hbound : bound ≤ more) : Lives own more base noted plain := by
  intro start before hbase hclosed
  obtain ⟨moments, hnoted, hmoved, hlived⟩ := h start before hbase hclosed
  refine ⟨moments, hnoted, hmoved, fun a hok => ?_⟩
  obtain ⟨calls, hcalls, hlives⟩ := hlived a hok
  exact ⟨calls, Nat.le_trans hcalls hbound, hlives⟩

theorem bind_add {x : Noting α} {f : α → Noting β} {x' : Eval α} {f' : α → Eval β}
    (hx : Lives own bound base x x')
    (hkeeps : Keeps Heap.SettleStep (fun _ => False) False base result x')
    (hf : ∀ heap a, base.Grows heap → result heap a → Lives own more heap (f a) (f' a)) :
    Lives own (bound + more) base (x >>= f) (x' >>= f') := by
  intro start before hbase hclosed
  obtain ⟨moments, hnoted, hmoved, hlived⟩ := hx start before hbase hclosed
  have hkept := hkeeps start hbase hclosed
  rw [Noting.bind_apply, hnoted, Eval.bind_apply]
  revert hmoved hlived hkept
  rcases x' start with ⟨signal | a, middle⟩ <;> intro hmoved hlived hkept
  case error => exact ⟨moments, rfl, hmoved, nofun⟩
  case ok =>
    have hfrom := hf middle.heap a (hbase.trans hkept.grows) hkept.found
    obtain ⟨rest, hrest, hthen, hlives⟩ :=
      hfrom middle (before ++ moments) (.refl _) hkept.closed
    refine ⟨moments ++ rest, ?_, hmoved.trans hthen, fun b hok => ?_⟩
    · rw [← List.append_assoc]
      exact hrest
    · obtain ⟨calls, hcalls, hfirst⟩ := hlived a rfl
      obtain ⟨others, hothers, hsecond⟩ := hlives b hok
      exact ⟨calls + others, Nat.add_le_add hcalls hothers, hfirst.trans hsecond⟩

/-- Handlers of `own` are called in the second part only. -/
theorem bind {x : Noting α} {f : α → Noting β} {x' : Eval α} {f' : α → Eval β}
    (hx : Lives own 0 base x x')
    (hkeeps : Keeps Heap.SettleStep (fun _ => False) False base result x')
    (hf : ∀ heap a, base.Grows heap → result heap a → Lives own bound heap (f a) (f' a)) :
    Lives own bound base (x >>= f) (x' >>= f') :=
  (bind_add hx hkeeps hf).mono (Nat.le_of_eq (Nat.zero_add bound))

/-- Handlers of `own` are called in the first part only. -/
theorem bind_after {x : Noting α} {f : α → Noting β} {x' : Eval α} {f' : α → Eval β}
    (hx : Lives own bound base x x')
    (hkeeps : Keeps Heap.SettleStep (fun _ => False) False base result x')
    (hf : ∀ heap a, base.Grows heap → result heap a → Lives own 0 heap (f a) (f' a)) :
    Lives own bound base (x >>= f) (x' >>= f') :=
  bind_add hx hkeeps hf

/-! ### What settling is made of -/

section

variable {noted : Ref .promise → Noting Outcome} {plain : Ref .promise → Eval Outcome}
  (hkeeps : ∀ {base : Heap} {ref : Ref .promise}, base.Has (fun _ => False) ref.place →
    GivesOutcome (fun _ => False) base (plain ref))
  (hlives : ∀ {base : Heap} {ref : Ref .promise}, base.Has (fun _ => False) ref.place →
    Lives own 0 base (noted ref) (plain ref))
include hlives

theorem settleValue {value : Value} (h : value.Of (fun _ => False) base) :
    Lives own 0 base (Script.settleValue noted value) (Script.settleValue plain value) := by
  cases value with
  | promise ref => exact hlives h
  | undefined | null | bool | number | string | array | object | error | callable =>
    exact .pure _

include hkeeps

theorem settleItems {items : List Value} (h : AllOf (fun _ => False) base items) :
    Lives own 0 base (Script.settleItems noted items) (Script.settleItems plain items) := by
  induction items generalizing base with
  | nil => exact .pure _
  | cons item rest ih =>
    have hitem := h item List.mem_cons_self
    refine .bind (settleValue hlives hitem) (settleValue_gives hkeeps hitem)
      fun heap found hgrows _ => ?_
    cases found with
    | error reason => exact .pure _
    | ok value =>
      have hrest : AllOf (fun _ => False) heap rest := fun other hmem =>
        (h other (List.mem_cons_of_mem _ hmem)).later hgrows
      exact .bind (ih hrest) (settleItems_gives hkeeps hrest) fun _ _ _ _ => .pure _

variable {handleNoted : Value → Value → Noting Outcome} {handle : Value → Value → Eval Outcome}
  (hhandle : ∀ {base : Heap} {handler value : Value}, handler.Of (fun _ => False) base →
    value.Of (fun _ => False) base → GivesOutcome (fun _ => False) base (handle handler value))
  (hhands : ∀ {base : Heap} {handler value : Value}, handler.Of (fun _ => False) base →
    value.Of (fun _ => False) base →
    Lives own 1 base (handleNoted handler value) (handle handler value))
include hhandle hhands

omit hkeeps in
theorem settleHandler {handler : Option Value}
    (hhandler : ∀ value ∈ handler, value.Of (fun _ => False) base) {value : Value}
    (hvalue : value.Of (fun _ => False) base) {otherwise : Outcome} :
    Lives own 1 base (Script.settleHandler handleNoted noted handler value otherwise)
      (Script.settleHandler handle plain handler value otherwise) := by
  cases handler with
  | none => exact .pure otherwise
  | some handler =>
    have hcalled := hhandler handler rfl
    refine .bind_after (hhands hcalled hvalue) (hhandle hcalled hvalue) ?_
    intro heap found _ hfound
    cases found with
    | ok result => exact settleValue hlives hfound
    | error reason => exact .pure _

/-- The work that a promise waits for calls at most one handler of it. -/
theorem react {reaction : Reaction} (h : reaction.Within (base.Has fun _ => False)) :
    Lives own 1 base (Script.react handleNoted noted reaction)
      (Script.react handle plain reaction) := by
  have hfails (failure : Failure) :
      GivesValue (fun _ => False) False base (Eval.newError failure) :=
    newError_gives failure
  cases reaction with
  | running => exact .bind (.lift (hfails _)) (hfails _).settling fun _ _ _ _ => .pure _
  | unresolved => exact .bind (.lift (hfails _)) (hfails _).settling fun _ _ _ _ => .pure _
  | adopt source => exact (hlives h).mono (Nat.zero_le 1)
  | andThen source onFulfilled onRejected =>
    obtain ⟨hsource, hfulfilled, hrejected⟩ := h
    refine .bind (hlives hsource) (hkeeps hsource) fun heap found hgrows hfound => ?_
    cases found with
    | ok value =>
      exact settleHandler hlives hhandle hhands
        (fun handler hmem => Value.Of.later (hfulfilled handler hmem) hgrows) hfound
    | error reason =>
      exact settleHandler hlives hhandle hhands
        (fun handler hmem => Value.Of.later (hrejected handler hmem) hgrows) hfound
  | all items =>
    refine .bind (settleItems hkeeps hlives h) (settleItems_gives hkeeps h)
      fun heap found _ hfound => ?_
    cases found with
    | error reason => exact .pure _
    | ok values =>
      have hgives : GivesValue (fun _ => False) False heap (Eval.newArray values.toArray) :=
        newArray_gives fun value hmem => hfound value (List.mem_toArray.mp hmem)
      exact .bind (.lift hgives) hgives.settling fun _ _ _ _ => .pure _

end

end Lives

/-! ### Settling by scripts -/

section

variable {invoke : Invoke} {levels : Nat} {ref : Ref .promise} {start : Machine}

theorem take_apply (ref : Ref .promise) (start : Machine) :
    (Settler.calling invoke).take ref start =
      match start.heap.get ref with
      | .fulfilled value => (.ok (.error (.ok value)), start)
      | .rejected reason => (.ok (.error (.error reason)), start)
      | .pending reaction => (.ok (.ok reaction), ⟨start.heap.taken ref, start.depth⟩) := by
  change (do
    match ← Eval.read ref with
    | .fulfilled value => return .error (.ok value)
    | .rejected reason => return .error (.error reason)
    | .pending reaction =>
      Eval.change ref fun _ => .pending .running
      return .ok reaction : Eval (Except Outcome Reaction)) start = _
  rw [Eval.bind_apply]
  change (match start.heap.get ref with
    | .fulfilled value => (return .error (.ok value) : Eval (Except Outcome Reaction))
    | .rejected reason => return .error (.error reason)
    | .pending reaction => do
      Eval.change ref fun _ => .pending .running
      return .ok reaction) start = _
  cases start.heap.get ref <;> rfl

/-- A promise with an outcome is asked for that. -/
theorem settlePromise_of_outcome {outcome : Outcome}
    (hget : start.heap.get ref = .ofOutcome outcome) :
    settlePromise (Settler.calling invoke) (levels + 1) ref start = (.ok outcome, start) := by
  rw [settlePromise, Eval.bind_apply, take_apply, hget]
  cases outcome <;> rfl

/-- The work of a promise is done between taking it and giving the promise its outcome. -/
theorem settlePromise_of_pending {reaction : Reaction}
    (hget : start.heap.get ref = .pending reaction) :
    settlePromise (Settler.calling invoke) (levels + 1) ref start =
      match react ((Settler.calling invoke).handle ref)
        (settlePromise (Settler.calling invoke) levels) reaction
        ⟨start.heap.taken ref, start.depth⟩ with
      | (.ok outcome, last) => (.ok outcome, ⟨last.heap.finished ref outcome, last.depth⟩)
      | (.error signal, last) => (.error signal, last) := by
  rw [settlePromise, Eval.bind_apply, take_apply, hget]
  dsimp only
  rw [Eval.bind_apply]
  generalize (react _ _ reaction : Eval Outcome) _ = after
  rcases after with ⟨_ | _, last⟩ <;> rfl

theorem noting_take_apply (ref : Ref .promise) (start : Machine) (before : List Moment) :
    (Settler.calling invoke).noting.take ref (start, before) =
      match start.heap.get ref with
      | .fulfilled value => (.ok (.error (.ok value)), (start, before))
      | .rejected reason => (.ok (.error (.error reason)), (start, before))
      | .pending reaction => (.ok (.ok reaction), (⟨start.heap.taken ref, start.depth⟩,
          before ++ [⟨.began ref, start.heap.taken ref⟩])) := by
  unfold Settler.noting
  dsimp only
  rw [Noting.bind_apply, Noting.lift_apply, take_apply]
  cases start.heap.get ref <;> rfl

theorem noting_handle_apply (ref : Ref .promise) (handler value : Value) (start : Machine)
    (before : List Moment) :
    (Settler.calling invoke).noting.handle ref handler value (start, before) =
      match (Settler.calling invoke).handle ref handler value start with
      | (.ok outcome, last) =>
        (.ok outcome, (last, before ++
          [⟨.handed ref handler value, start.heap⟩, ⟨.answered ref outcome, last.heap⟩]))
      | (.error signal, last) =>
        (.error signal, (last, before ++ [⟨.handed ref handler value, start.heap⟩])) := by
  change (do
    Noting.note (.handed ref handler value)
    let outcome ← liftM ((Settler.calling invoke).handle ref handler value)
    Noting.note (.answered ref outcome)
    return outcome : Noting Outcome) (start, before) = _
  rw [Noting.bind_apply, Noting.note]
  dsimp only
  rw [Noting.bind_apply, Noting.lift_apply]
  rcases (Settler.calling invoke).handle ref handler value start with ⟨signal | outcome, last⟩
  case error => rfl
  case ok =>
    change (_, (_, before ++ [_] ++ [_])) = _
    rw [List.append_assoc]
    rfl

theorem noting_of_outcome {outcome : Outcome} {before : List Moment}
    (hget : start.heap.get ref = .ofOutcome outcome) :
    settlePromise (Settler.calling invoke).noting (levels + 1) ref (start, before) =
      (.ok outcome, (start, before)) := by
  rw [settlePromise, Noting.bind_apply, noting_take_apply, hget]
  cases outcome <;> rfl

theorem noting_of_pending {reaction : Reaction} {before : List Moment}
    (hget : start.heap.get ref = .pending reaction) :
    settlePromise (Settler.calling invoke).noting (levels + 1) ref (start, before) =
      match react ((Settler.calling invoke).noting.handle ref)
        (settlePromise (Settler.calling invoke).noting levels) reaction
        (⟨start.heap.taken ref, start.depth⟩, before ++ [⟨.began ref, start.heap.taken ref⟩]) with
      | (.ok outcome, (last, noted)) =>
        (.ok outcome, (⟨last.heap.finished ref outcome, last.depth⟩,
          noted ++ [⟨.ended ref outcome, last.heap.finished ref outcome⟩]))
      | (.error signal, (last, noted)) => (.error signal, (last, noted)) := by
  rw [settlePromise, Noting.bind_apply, noting_take_apply, hget]
  dsimp only
  rw [Noting.bind_apply]
  generalize (react _ _ reaction : Noting Outcome) _ = after
  rcases after with ⟨_ | _, last, noted⟩ <;> rfl

end

/-- Taking the work of a promise leaves a closed heap that the work refers to. -/
theorem taken_kept {ref : Ref .promise} {reaction : Reaction} {start : Machine}
    (hclosed : start.heap.Closed fun _ => False) (hget : start.heap.get ref = .pending reaction) :
    start.heap.Grows (start.heap.taken ref) ∧ ((start.heap.taken ref).Closed fun _ => False) ∧
      reaction.Within ((start.heap.taken ref).Has fun _ => False) := by
  have hstep : start.heap.SettleStep (start.heap.taken ref) := .take hget
  have hrunning : PromiseState.Within (start.heap.Has fun _ => False) (.pending .running) := trivial
  have hkept : Kept _ _ False _ start (Eval.change ref (fun _ => .pending .running) start) :=
    .change hclosed hstep id fun _ _ => hrunning
  have hstate : Cell.Within (start.heap.Has fun _ => False) (start.heap.get ref) :=
    hclosed.within ref id
  rw [hget] at hstate
  exact ⟨hkept.grows, hkept.closed, Reaction.Within.mono hkept.grows.has hstate⟩

section

variable {invoke : Invoke} (hinvoke : invoke.Keeps fun _ => False) {base : Heap}
include hinvoke

/-- Between calling a handler and its answer a script is evaluated. -/
theorem handle_lives (ref : Ref .promise) {handler value : Value}
    (hhandler : handler.Of (fun _ => False) base) (hvalue : value.Of (fun _ => False) base) :
    Lives ref 1 base ((Settler.calling invoke).noting.handle ref handler value)
      ((Settler.calling invoke).handle ref handler value) := by
  intro start before hbase hclosed
  have hargs : AllOf (fun _ => False) base [value] := .cons hvalue fun _ hmem => by cases hmem
  have hpath := ((hinvoke hhandler hargs).outcome start hbase hclosed).path
  change ReflTransGen Heap.Step start.heap
    ((Settler.calling invoke).handle ref handler value start).2.heap at hpath
  have hhanded : Moved start.heap [⟨.handed ref handler value, start.heap⟩] start.heap :=
    .single (.handed _ _ _ _)
  rw [noting_handle_apply]
  revert hpath
  rcases (Settler.calling invoke).handle ref handler value start with ⟨signal | outcome, last⟩ <;>
    intro hpath
  case error => exact ⟨[_], rfl, hhanded.trans (.nil hpath), nofun⟩
  case ok =>
    have hanswered := (Moved.single (.answered last.heap ref outcome)).after hpath
    refine ⟨[_, _], rfl, hhanded.trans hanswered, fun _ _ => ⟨1, Nat.le_refl 1, fun other => ?_⟩⟩
    refine ⟨0, .of_steps hpath other, ?_⟩
    simp [Act.hands, eq_comm]

/-- The work of a promise from when it was taken on. Where the promise is met again that is only to
make the error, so nothing is noted. -/
theorem react_lives (settle : Ref .promise → Eval Outcome) (noted : Ref .promise → Noting Outcome)
    (hkeeps : ∀ {base : Heap} {ref : Ref .promise}, base.Has (fun _ => False) ref.place →
      GivesOutcome (fun _ => False) base (settle ref))
    (hlives : ∀ {base : Heap} {ref : Ref .promise} (own : Ref .promise),
      base.Has (fun _ => False) ref.place → Lives own 0 base (noted ref) (settle ref))
    {ref : Ref .promise} {reaction : Reaction} {start : Machine}
    (hthere : ref.index < start.heap.count .promise)
    (hget : start.heap.get ref = .pending reaction)
    (hclosed : (start.heap.taken ref).Closed fun _ => False)
    (hreaction : reaction.Within ((start.heap.taken ref).Has fun _ => False))
    (before : List Moment) :
    let after := react ((Settler.calling invoke).handle ref) settle reaction
      ⟨start.heap.taken ref, start.depth⟩
    ∃ moments,
      react ((Settler.calling invoke).noting.handle ref) noted reaction
        (⟨start.heap.taken ref, start.depth⟩, before) = (after.1, (after.2, before ++ moments)) ∧
      Moved (start.heap.taken ref) moments after.2.heap ∧
      ∀ outcome, after.1 = .ok outcome → ∃ calls,
        Lived ref calls (start.heap.taken ref) moments after.2.heap ∧
        Life (start.heap.get ref) (.began :: works ref moments ++ [.ended outcome]) calls
          (.ofOutcome outcome) := by
  intro after
  by_cases hrunning : reaction = .running
  · subst hrunning
    have herror : CellKind.error ≠ .promise := by decide
    have hpath : ReflTransGen Heap.Step (start.heap.taken ref) after.2.heap :=
      .single (.alloc _ herror (.inl rfl))
    refine ⟨[], by rw [List.append_nil]; rfl, .nil hpath, ?_⟩
    rintro _ ⟨⟩
    refine ⟨0, .of_steps hpath, ?_⟩
    rw [hget]
    exact .met _
  · have hreact := Lives.react hkeeps (fun h => hlives ref h)
      (handle_gives hinvoke ref) (handle_lives hinvoke ref) hreaction
    obtain ⟨moments, hnoted, hmoved, hlived⟩ :=
      hreact ⟨start.heap.taken ref, start.depth⟩ before (.refl _) hclosed
    refine ⟨moments, hnoted, hmoved, fun outcome hok => ?_⟩
    obtain ⟨calls, hcalls, hlife⟩ := hlived outcome hok
    exact ⟨calls, hlife, hlife.life_settled hrunning hthere hget hcalls outcome⟩

theorem work_kept (levels : Nat) {ref : Ref .promise} {reaction : Reaction} {start : Machine}
    (hclosed : start.heap.Closed fun _ => False) (hget : start.heap.get ref = .pending reaction) :
    Kept Heap.SettleStep (fun _ => False) False
      (fun heap found => Library.Outcome.Of (fun _ => False) heap found)
      ⟨start.heap.taken ref, start.depth⟩
      (react ((Settler.calling invoke).handle ref) (settlePromise (Settler.calling invoke) levels)
        reaction ⟨start.heap.taken ref, start.depth⟩) := by
  obtain ⟨-, htaken, hreaction⟩ := taken_kept hclosed hget
  have hsettle {base : Heap} {other : Ref .promise} (h : base.Has (fun _ => False) other.place) :=
    settlePromise_gives hinvoke levels h
  exact react_gives hsettle (handle_gives hinvoke ref) hreaction _ (.refl _) htaken

/-- **The lives of promises.** A promise that is settled and all others have a life at the moments
that are noted meanwhile. -/
theorem settlePromise_lives (levels : Nat) {ref : Ref .promise} (own : Ref .promise)
    (href : base.Has (fun _ => False) ref.place) :
    Lives own 0 base (settlePromise (Settler.calling invoke).noting levels ref)
      (settlePromise (Settler.calling invoke) levels ref) := by
  induction levels generalizing base ref own with
  | zero =>
    intro start before _ _
    exact ⟨[], by rw [List.append_nil]; rfl, .nil .refl, nofun⟩
  | succ levels ih =>
    intro start before hbase hclosed
    have hhas := hbase.has _ href
    -- A promise with an outcome gives it, and nothing is noted; in all other cases its own work is
    -- done between two moments, and what other promises do meanwhile is known by induction.
    rcases (start.heap.get ref).outcome_or_pending with ⟨outcome, hget⟩ | ⟨reaction, hget⟩
    · rw [settlePromise_of_outcome hget, noting_of_outcome hget]
      refine ⟨[], ?_, .nil .refl, fun _ _ => ⟨0, Nat.le_refl 0, .of_steps .refl⟩⟩
      rw [List.append_nil]
    · obtain ⟨hgrows, htaken, hreaction⟩ := taken_kept hclosed hget
      have hsettle {base : Heap} {other : Ref .promise}
          (h : base.Has (fun _ => False) other.place) :=
        settlePromise_gives hinvoke levels h
      have hkept := work_kept hinvoke levels hclosed hget
      obtain ⟨moments, hnoted, hmoved, hlived⟩ :=
        react_lives hinvoke _ _ hsettle (fun own h => ih own h) hhas.1 hget htaken hreaction
          (before ++ [⟨.began ref, start.heap.taken ref⟩])
      rw [noting_of_pending hget, settlePromise_of_pending hget, hnoted]
      revert hkept hmoved hlived
      generalize (react _ _ reaction : Eval Outcome) _ = after
      rcases after with ⟨signal | outcome, last⟩ <;> intro hkept hmoved hlived
      case error =>
        refine ⟨[⟨.began ref, start.heap.taken ref⟩] ++ moments, ?_, ?_, nofun⟩
        · rw [← List.append_assoc]
        · exact .trans (.single (.began hget)) hmoved
      case ok =>
        obtain ⟨calls, hlives, hlife⟩ := hlived outcome rfl
        have hrunning : (start.heap.taken ref).get ref = .pending .running := by
          rw [Heap.get_modify, if_pos ⟨rfl, hhas.1⟩]
        have hlast := hkept.grows.has _ (hgrows.has _ hhas)
        refine ⟨settling start.heap ref moments last.heap outcome, ?_, ?_, fun _ _ =>
          ⟨0, Nat.le_refl 0, ?_⟩⟩
        · simp only [settling, List.append_assoc]
        · exact .settling hget hmoved (hlives.running_or_rejected hrunning)
        · exact .settling hhas.1 hlast.1 hlives hlife

/-- What settling a promise gives is the outcome that is kept for it. -/
theorem settlePromise_get {levels : Nat} {ref : Ref .promise} {start last : Machine}
    {outcome : Outcome} (hclosed : start.heap.Closed fun _ => False)
    (href : start.heap.Has (fun _ => False) ref.place)
    (hrun : settlePromise (Settler.calling invoke) levels ref start = (.ok outcome, last)) :
    last.heap.get ref = .ofOutcome outcome := by
  cases levels with
  | zero => cases hrun
  | succ levels =>
    rcases (start.heap.get ref).outcome_or_pending with ⟨outcome, hget⟩ | ⟨reaction, hget⟩
    · rw [settlePromise_of_outcome hget] at hrun
      cases hrun
      exact hget
    · have hgrows := (taken_kept hclosed hget).1
      have hkept := work_kept hinvoke levels hclosed hget
      rw [settlePromise_of_pending hget] at hrun
      revert hrun
      revert hkept
      generalize (react _ _ reaction : Eval Outcome) _ = after
      rcases after with ⟨signal | found, middle⟩ <;> intro hkept hrun
      case error => cases hrun
      case ok =>
        cases hrun
        have hthere := hkept.grows.has _ (hgrows.has _ href)
        rw [Heap.get_modify, if_pos ⟨rfl, hthere.1⟩]

end

end Doctest.Script
