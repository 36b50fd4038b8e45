import Doctest.Proofs.Script.Keeping.Evaluation
import Doctest.Script.Evaluator

/-!
# What settling and sessions keep

Settling a promise makes the steps of evaluations, and takes the work of promises and gives them
outcomes. With that every request to a session gives a value of its heap, and a session that is
closed stays closed.
-/

namespace Doctest.Script

open Eval Relation

variable {apart : Place → Prop} {base : Heap}

/-- One change that settling makes: one of an evaluation, or a promise that has no outcome is being
settled from then on, or a promise is given an outcome. -/
inductive Heap.SettleStep : Heap → Heap → Prop
  | step {heap later : Heap} (h : heap.Step later) : SettleStep heap later
  | take {heap : Heap} {ref : Ref .promise} {reaction : Reaction}
    (hpending : heap.get ref = .pending reaction) :
    SettleStep heap (heap.modify ref fun _ => .pending .running)
  | finish (heap : Heap) (ref : Ref .promise) (outcome : Outcome) :
    SettleStep heap (heap.modify ref fun _ => .ofOutcome outcome)

/-- An evaluation that makes steps of settling and gives an outcome of the heap. -/
abbrev Eval.GivesOutcome (apart : Place → Prop) (base : Heap) (eval : Eval Outcome) : Prop :=
  Keeps Heap.SettleStep apart False base (fun heap found => Library.Outcome.Of apart heap found)
    eval

theorem Eval.Keeps.settling {α : Type} {result : Heap → α → Prop} {eval : Eval α}
    (h : Gives apart False base result eval) :
    Keeps Heap.SettleStep apart False base result eval :=
  h.allowing (fun _ _ => .step) id

/-! ### Settling -/

section

variable {settle : Ref .promise → Eval Outcome}
  (hsettle : ∀ {base : Heap} {ref : Ref .promise}, base.Has apart ref.place →
    GivesOutcome apart base (settle ref))
include hsettle

theorem settleValue_gives {value : Value} (h : value.Of apart base) :
    GivesOutcome apart base (settleValue settle value) := by
  unfold settleValue
  split
  · exact hsettle h
  · exact .pure fun _ hgrows => h.later hgrows

theorem settleItems_gives {items : List Value} (h : AllOf apart base items) :
    Keeps Heap.SettleStep apart False base
      (fun heap found =>
        match found with
        | .ok values => AllOf apart heap values
        | .error reason => reason.Of apart heap)
      (settleItems settle items) := by
  induction items generalizing base with
  | nil => exact .pure fun _ _ value hmem => by cases hmem
  | cons item rest ih =>
    have hitem := h item List.mem_cons_self
    refine .bind (settleValue_gives hsettle hitem) fun heap found hgrows hfound => ?_
    cases found with
    | error reason => exact .pure fun _ hlater => Value.Of.later hfound hlater
    | ok value =>
      have hrest : AllOf apart heap rest := fun other hmem =>
        (h other (List.mem_cons_of_mem _ hmem)).later hgrows
      refine .bind (ih hrest) fun later values hlater hvalues => .pure fun last hlast => ?_
      cases values with
      | error reason => exact Value.Of.later hvalues hlast
      | ok values => exact .cons (Value.Of.later hfound (hlater.trans hlast)) (hvalues.later hlast)

variable {handle : Value → Value → Eval Outcome}
  (hhandle : ∀ {base : Heap} {handler value : Value}, handler.Of apart base →
    value.Of apart base → GivesOutcome apart base (handle handler value))
include hhandle

theorem settleHandler_gives {handler : Option Value}
    (hhandler : ∀ value ∈ handler, value.Of apart base) {value : Value}
    (hvalue : value.Of apart base) {otherwise : Outcome}
    (hotherwise : Library.Outcome.Of apart base otherwise) :
    GivesOutcome apart base (settleHandler handle settle handler value otherwise) := by
  cases handler with
  | none =>
    refine .pure fun _ hgrows => ?_
    cases otherwise <;> exact Value.Of.later hotherwise hgrows
  | some handler =>
    refine .bind (hhandle (hhandler handler rfl) hvalue) fun heap found _ hfound => ?_
    cases found with
    | ok result => exact settleValue_gives hsettle hfound
    | error reason => exact .pure fun _ hgrows => Value.Of.later hfound hgrows

theorem react_gives {reaction : Reaction} (h : reaction.Within (base.Has apart)) :
    GivesOutcome apart base (react handle settle reaction) := by
  cases reaction with
  | running | unresolved =>
    exact .bind (newError_gives _).settling fun _ _ _ herror =>
      .pure fun _ hgrows => Value.Of.later herror hgrows
  | adopt source => exact hsettle h
  | andThen source onFulfilled onRejected =>
    obtain ⟨hsource, hfulfilled, hrejected⟩ := h
    refine .bind (hsettle hsource) fun heap found hgrows hfound => ?_
    cases found with
    | ok value =>
      exact settleHandler_gives hsettle hhandle
        (fun handler hmem => Value.Of.later (hfulfilled handler hmem) hgrows) hfound hfound
    | error reason =>
      exact settleHandler_gives hsettle hhandle
        (fun handler hmem => Value.Of.later (hrejected handler hmem) hgrows) hfound hfound
  | all items =>
    refine .bind (settleItems_gives hsettle h) fun heap found hgrows hfound => ?_
    cases found with
    | error reason => exact .pure fun _ hlater => Value.Of.later hfound hlater
    | ok values =>
      have hitems : ∀ value ∈ values.toArray, value.Of apart heap := fun value hmem =>
        hfound value (List.mem_toArray.mp hmem)
      exact .bind (newArray_gives hitems).settling fun _ _ _ harray =>
        .pure fun _ hlater => Value.Of.later harray hlater

end

variable {invoke : Invoke}

theorem handle_gives (hinvoke : invoke.Keeps apart) (ref : Ref .promise) {handler value : Value}
    (hhandler : handler.Of apart base) (hvalue : value.Of apart base) :
    GivesOutcome apart base ((Settler.calling invoke).handle ref handler value) := by
  have hargs : AllOf apart base [value] := .cons hvalue fun _ hmem => by cases hmem
  refine (hinvoke hhandler hargs).outcome.settling.mono fun heap found _ hfound => ?_
  cases found <;> exact hfound

theorem take_gives {ref : Ref .promise} (href : base.Has apart ref.place) :
    Keeps Heap.SettleStep apart False base
      (fun heap taken =>
        match taken with
        | .ok reaction => reaction.Within (heap.Has apart)
        | .error outcome => Library.Outcome.Of apart heap outcome)
      ((Settler.calling invoke).take ref) := by
  intro start hbase hclosed
  apply Kept.bind (Keeps.read href.2 start hbase hclosed)
  rintro state middle ⟨⟩ -
  dsimp only
  have hstate : Cell.Within (start.heap.Has apart) (start.heap.get ref) :=
    hclosed.within ref href.2
  cases hget : start.heap.get ref with
  | fulfilled | rejected =>
    rw [hget] at hstate
    exact .silent hclosed hstate
  | pending reaction =>
    rw [hget] at hstate
    have hrunning : PromiseState.Within (start.heap.Has apart) (.pending .running) := trivial
    have htake := Heap.SettleStep.take hget
    apply Kept.bind (Kept.change hclosed htake href.2 fun _ _ => hrunning)
    rintro ⟨⟩ middle - hkept
    exact .silent hkept.closed (Reaction.Within.mono hkept.grows.has hstate)

theorem settlePromise_gives (hinvoke : invoke.Keeps apart) (levels : Nat) {ref : Ref .promise}
    (href : base.Has apart ref.place) :
    GivesOutcome apart base (settlePromise (Settler.calling invoke) levels ref) := by
  induction levels generalizing base ref with
  | zero => exact .exhausted
  | succ levels ih =>
    refine .bind (take_gives href) fun heap taken hgrows htaken => ?_
    cases taken with
    | error outcome =>
      refine .pure fun _ hlater => ?_
      cases outcome <;> exact Value.Of.later htaken hlater
    | ok reaction =>
      refine .bind (react_gives ih (handle_gives hinvoke ref) htaken)
        fun later outcome hlater houtcome => ?_
      refine .bind (.change (fun _ => .finish _ _ _) href.2 fun last _ hlast _ => ?_)
        fun last _ hlast _ => .pure fun final hfinal => ?_
      · cases outcome <;> exact Value.Of.later houtcome hlast
      · cases outcome <;> exact Value.Of.later houtcome (hlast.trans hfinal)

theorem settle_gives (hinvoke : invoke.Keeps apart) (levels : Nat) {value : Value}
    (h : value.Of apart base) : GivesOutcome apart base (Script.settle invoke levels value) :=
  settleValue_gives (settlePromise_gives hinvoke levels) h

/-! ### Sessions -/

/-- A session whose heap is closed and whose scope is made of frames of the heap. -/
structure Session.Closed (apart : Place → Prop) (session : Session) : Prop where
  heap : session.heap.Closed apart
  scope : session.scope.Of apart session.heap

/-- No reference of a session leads nowhere: what its cells and its scope refer to is there. -/
abbrev Session.Whole (session : Session) : Prop :=
  session.Closed fun _ => False

/-- A value of a session. -/
abbrev Session.Holds (session : Session) (value : Value) : Prop :=
  value.Of (fun _ => False) session.heap

/-- What there is to say about a request to a session that gave an outcome. -/
structure Session.Kept (steps : Heap → Heap → Prop) (apart : Place → Prop) (session : Session)
    (outcome : Outcome) (next : Session) : Prop where
  closed : next.Closed apart
  grows : session.heap.Grows next.heap
  same : ∀ {kind : CellKind} (ref : Ref kind), apart ref.place →
    next.heap.get ref = session.heap.get ref
  scope : next.scope = session.scope
  depth : next.machine.depth = session.machine.depth
  path : ReflTransGen steps session.heap next.heap
  found : Library.Outcome.Of apart next.heap outcome

/-- What is read through a reference without a cell refers to nothing. -/
theorem Cell.within_missing (area : Place → Prop) (kind : CellKind) :
    Cell.Within area (Cell.missing kind) := by
  cases kind with
  | array => exact fun item hmem => (Array.not_mem_empty item hmem).elim
  | object | error | frame => exact Dict.all_empty
  | callable | promise => trivial

theorem Heap.closed_empty : Heap.empty.Closed fun _ => False where
  within {kind} ref _ := by
    have hmissing : Heap.empty.get ref = Cell.missing kind :=
      Heap.empty.get_of_le ref (by cases kind <;> exact Nat.zero_le _)
    rw [hmissing]
    exact Cell.within_missing _ kind
  apart_lt _ h := h.elim

theorem Session.whole_new : Session.new.Whole := by
  have hgives : Gives (fun _ => False) False Heap.empty (fun heap scope => Scope.Of _ heap scope)
      Library.newScope :=
    Library.newScope_gives
  have hkept := hgives ⟨Heap.empty, 0⟩ (.refl _) Heap.closed_empty
  have hok : (Library.newScope ⟨Heap.empty, 0⟩).1.isOk = true := by decide +kernel
  unfold Session.new
  revert hkept hok
  rcases Library.newScope ⟨Heap.empty, 0⟩ with ⟨signal | scope, machine⟩ <;> intro hkept hok
  case error => cases hok
  case ok => exact ⟨hkept.closed, hkept.found⟩

namespace Step

variable {session next : Session} {outcome : Outcome}

/-- One step after the other, where both come to an end. -/
theorem run_bind_eq_some_iff {α β : Type} {x : Step α} {f : α → Step β}
    {b : β} :
    (x >>= f).run session = some (b, next) ↔
      ∃ a middle, x.run session = some (a, middle) ∧ (f a).run middle = some (b, next) := by
  rw [StateT.run_bind]
  constructor
  · intro h
    obtain ⟨⟨a, middle⟩, hx, hf⟩ := Option.bind_eq_some_iff.mp h
    exact ⟨a, middle, hx, hf⟩
  · rintro ⟨a, middle, hx, hf⟩
    rw [hx]
    exact hf

theorem ofEval_apply (eval : Scope → Eval Value) (session : Session) :
    (ofEval eval).run session =
      match eval session.scope session.machine with
      | (.ok value, machine) => some (.ok value, ⟨machine, session.scope⟩)
      | (.error (.raised reason), machine) => some (.error reason, ⟨machine, session.scope⟩)
      | (.error (.returned value), machine) => some (.error value, ⟨machine, session.scope⟩)
      | (.error .exhausted, _) => none :=
  rfl

theorem settle_apply (levels : Nat) (value : Value) (session : Session) :
    (settle levels value).run session =
      match Script.settle (Script.invoke levels) levels value session.machine with
      | (.ok outcome, machine) => some (outcome, ⟨machine, session.scope⟩)
      | (.error _, _) => none :=
  rfl

/-- An evaluation in a session is one of its machine, and what it raises or returns is what it
tells. -/
theorem ofEval_run {eval : Scope → Eval Value}
    (hrun : (ofEval eval).run session = some (outcome, next)) :
    next = ⟨(eval session.scope session.machine).2, session.scope⟩ ∧
      match (eval session.scope session.machine).1 with
      | .ok value => outcome = .ok value
      | .error (.raised reason) => outcome = .error reason
      | .error (.returned value) => outcome = .error value
      | .error .exhausted => False := by
  rw [ofEval_apply] at hrun
  revert hrun
  rcases eval session.scope session.machine with ⟨(_ | _ | _) | _, last⟩ <;> rintro ⟨⟩ <;>
    exact ⟨rfl, rfl⟩

/-- A value that is settled in a session is settled by its machine. -/
theorem settle_run {levels : Nat} {value : Value}
    (hrun : (settle levels value).run session = some (outcome, next)) :
    Script.settle (Script.invoke levels) levels value session.machine =
        (.ok outcome, next.machine) ∧
      next.scope = session.scope := by
  rw [settle_apply] at hrun
  revert hrun
  rcases Script.settle (Script.invoke levels) levels value session.machine with ⟨_ | _, last⟩ <;>
    rintro ⟨⟩
  exact ⟨rfl, rfl⟩

/-- An evaluation in the scope of a session. -/
theorem ofEval_kept {eval : Scope → Eval Value} (hclosed : session.Closed apart)
    (heval : GivesValue apart False session.heap (eval session.scope))
    (hrun : (ofEval eval).run session = some (outcome, next)) :
    session.Kept Heap.Step apart outcome next := by
  obtain ⟨rfl, houtcome⟩ := ofEval_run hrun
  obtain ⟨hgrows, hlast, hsame, hdepth, hpath, hfound⟩ :=
    heval session.machine (.refl _) hclosed.heap
  refine ⟨⟨hlast, hclosed.scope.later hgrows⟩, hgrows, hsame, rfl, hdepth, hpath, ?_⟩
  revert houtcome hfound
  rcases (eval session.scope session.machine).1 with signal | value <;> intro houtcome hfound
  case ok =>
    subst houtcome
    exact hfound
  case error =>
    cases signal with
    | raised reason =>
      subst houtcome
      exact hfound
    | returned value => exact hfound.1.elim
    | exhausted => exact houtcome.elim

theorem evaluate_kept {levels : Nat} {source : String} (hclosed : session.Closed apart)
    (hrun : (evaluate levels source).run session = some (outcome, next)) :
    session.Kept Heap.Step apart outcome next :=
  ofEval_kept hclosed (runSource_gives (invoke_keeps levels) hclosed.scope source) hrun

theorem property_kept {target : Value} {key : String} (hclosed : session.Closed apart)
    (htarget : target.Of apart session.heap)
    (hrun : (property target key).run session = some (outcome, next)) :
    session.Kept Heap.Step apart outcome next :=
  ofEval_kept hclosed (property_gives htarget key) hrun

theorem define_kept {name : String} {json : Json} (hclosed : session.Closed apart)
    (hrun : (define name json).run session = some (outcome, next)) :
    session.Kept Heap.Step apart outcome next := by
  refine ofEval_kept hclosed (.bind (ofJson_gives _ json) fun heap value hgrows hvalue => ?_) hrun
  exact .bind (Scope.define_runs (hclosed.scope.later hgrows) name hvalue true)
    fun _ _ hlater _ => .pure fun _ hlast => hvalue.later (hlater.trans hlast)

theorem settle_kept {levels : Nat} {value : Value} (hclosed : session.Closed apart)
    (hvalue : value.Of apart session.heap)
    (hrun : (settle levels value).run session = some (outcome, next)) :
    session.Kept Heap.SettleStep apart outcome next := by
  obtain ⟨hsettled, hscope⟩ := settle_run hrun
  have hkept := settle_gives (invoke_keeps levels) levels hvalue session.machine (.refl _)
    hclosed.heap
  rw [hsettled] at hkept
  have hlast : next.scope.Of apart next.heap := by
    rw [hscope]
    exact hclosed.scope.later hkept.grows
  exact ⟨⟨hkept.closed, hlast⟩, hkept.grows, hkept.same, hscope, hkept.depth, hkept.path,
    hkept.found⟩

end Step

end Doctest.Script
