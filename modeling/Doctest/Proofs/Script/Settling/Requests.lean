import Doctest.Proofs.Script.Settling.Lives
import Mathlib.Data.List.Basic

/-!
# Promises across requests

A session is asked for evaluations and for the outcomes of values, one request after the other.
What becomes of the promises of a session is followed from the first request on.
-/

namespace Doctest.Script

open Eval Relation

/-! ### The states of one promise -/

/-- The steps that a promise makes in its life. -/
inductive PromiseState.Follows : PromiseState → PromiseState → Prop
  | resolves {state : PromiseState} (h : state.Resolved) : Follows (.pending .unresolved) state
  | begins {reaction : Reaction} (h : reaction ≠ .running) :
    Follows (.pending reaction) (.pending .running)
  | ends (outcome : Outcome) : Follows (.pending .running) (.ofOutcome outcome)

/-- A change of the heap as its promises see it: each makes at most one step of its life, but for
one that has been rejected and is given an outcome again. -/
def Heap.Passes (act : Act) (heap next : Heap) : Prop :=
  heap.count .promise ≤ next.count .promise ∧
    ∀ ref : Ref .promise, ref.index < heap.count .promise →
      next.get ref = heap.get ref ∨ (heap.get ref).Follows (next.get ref) ∨
        ∃ reason outcome, act = .ended ref outcome ∧ heap.get ref = .rejected reason ∧
          next.get ref = .ofOutcome outcome

/-- Something that holds of the heap before and at each of some moments. -/
def Along (p : Act → Heap → Heap → Prop) : Heap → List Moment → Prop
  | _, [] => True
  | heap, moment :: rest => p moment.act heap moment.heap ∧ Along p moment.heap rest

theorem Heap.Step.passes {heap later : Heap} (h : heap.Step later) (act : Act) :
    heap.Passes act later := by
  cases h with
  | alloc cell hkind =>
    refine ⟨heap.grows_alloc cell _, fun ref _ => .inl ?_⟩
    exact Heap.get_alloc_of_ne _ _ _ hkind.symm
  | modify changed f hkind =>
    refine ⟨heap.grows_modify changed f _, fun ref _ => .inl ?_⟩
    exact Heap.get_modify_of_ne _ _ _ _ hkind.symm
  | @make state _ =>
    have hgrows : heap.Grows (heap.alloc .promise state).2 := heap.grows_alloc _
    refine ⟨hgrows _, fun ref href => .inl ?_⟩
    rw [Heap.get_alloc, if_neg (Nat.ne_of_lt href)]
  | @resolve changed state hwaits hresolved =>
    refine ⟨heap.grows_modify changed _ _, fun ref href => ?_⟩
    rw [Heap.get_modify]
    split
    case isTrue hsame =>
      rw [← hsame.1, hwaits]
      exact .inr (.inl (.resolves hresolved))
    case isFalse => exact .inl rfl

theorem Act.Moves.passes {act : Act} {heap later : Heap} (h : act.Moves heap later) :
    heap.Passes act later := by
  cases h with
  | handed | answered | stopped => exact ⟨Nat.le_refl _, fun _ _ => .inl rfl⟩
  | @began _ changed reaction hget =>
    refine ⟨heap.grows_modify changed _ _, fun ref _ => ?_⟩
    rw [Heap.get_modify]
    split
    case isFalse => exact .inl rfl
    case isTrue hsame =>
      rw [← hsame.1, hget]
      by_cases hrunning : reaction = .running
      · exact .inl (by rw [hrunning])
      · exact .inr (.inl (.begins hrunning))
  | @ended _ changed outcome hget =>
    refine ⟨heap.grows_modify changed _ _, fun ref _ => ?_⟩
    rw [Heap.get_modify]
    split
    case isFalse => exact .inl rfl
    case isTrue hsame =>
      obtain ⟨rfl, -⟩ := hsame
      obtain hrunning | ⟨reason, hrejected⟩ := hget
      · rw [hrunning]
        exact .inr (.inl (.ends outcome))
      · exact .inr (.inr ⟨reason, outcome, rfl, hrejected, rfl⟩)

theorem Moved.along {start last : Heap} {moments : List Moment} (h : Moved start moments last) :
    Along (fun act => ReflTransGen (Heap.Passes act)) start moments := by
  induction h with
  | nil => trivial
  | @cons start before _ moment _ hsteps hmoves _ ih =>
    have hpasses : ReflTransGen (Heap.Passes moment.act) start before :=
      ReflTransGen.mono (fun _ _ hstep => hstep.passes _) _ _ hsteps
    exact ⟨hpasses.tail hmoves.passes, ih⟩

/-! ### Requests -/

/-- What a session is asked for. -/
inductive Request where
  | evaluate (source : String)
  | settle (value : Value)

namespace Request

/-- What is to be settled is a value of the session. -/
def Held (session : Session) : Request → Prop
  | .evaluate _ => True
  | .settle value => session.Holds value

/-- What a session does when it is asked. -/
def step (levels : Nat) : Request → Step Outcome
  | .evaluate source => Step.evaluate levels source
  | .settle value => Step.settle levels value

/-- The moments of a request, whether it comes to an end or not. -/
def moments (levels : Nat) (session : Session) : Request → List Moment
  | .evaluate source =>
    [⟨.stopped, (runSource (invoke levels) session.scope source session.machine).2.heap⟩]
  | .settle value =>
    let settler := (Settler.calling (invoke levels)).noting
    let after := settleValue (settlePromise settler levels) value (session.machine, [])
    after.2.2 ++ [⟨.stopped, after.2.1.heap⟩]

variable {levels : Nat} {session next : Session} {request : Request} {outcome : Outcome}

theorem kept (hwhole : session.Whole) (hheld : request.Held session)
    (hrun : (request.step levels).run session = some (outcome, next)) :
    session.Kept Heap.SettleStep (fun _ => False) outcome next := by
  cases request with
  | evaluate source =>
    have hkept := Step.evaluate_kept hwhole hrun
    exact ⟨hkept.closed, hkept.grows, hkept.same, hkept.scope, hkept.depth,
      ReflTransGen.mono (fun _ _ => .step) _ _ hkept.path, hkept.found⟩
  | settle value => exact Step.settle_kept hwhole hheld hrun

/-- The moments of a request are moments of the lives of promises. -/
theorem lives (hwhole : session.Whole) (hheld : request.Held session) (levels : Nat) :
    ∃ last, Moved session.heap (request.moments levels session) last ∧
      ∀ outcome next, (request.step levels).run session = some (outcome, next) →
        next.heap = last ∧ ∀ ref, Life (session.heap.get ref)
          (works ref (request.moments levels session))
          (handings ref (request.moments levels session)) (next.heap.get ref) := by
  cases request with
  | evaluate source =>
    have hgives := runSource_gives (invoke_keeps levels) hwhole.scope source
    have hpath := (hgives session.machine (.refl _) hwhole.heap).path
    refine ⟨_, (Moved.single (.stopped _)).after hpath, fun outcome next hrun => ?_⟩
    change (Step.evaluate levels source).run session = some (outcome, next) at hrun
    obtain ⟨rfl, -⟩ := Step.ofEval_run hrun
    exact ⟨rfl, fun ref => .of_steps hpath ref⟩
  | settle value =>
    have hsettle {base : Heap} {ref : Ref .promise} (h : base.Has (fun _ => False) ref.place) :=
      settlePromise_lives (invoke_keeps levels) levels ⟨0⟩ h
    obtain ⟨moments, hnoted, hmoved, hlived⟩ :=
      Lives.settleValue hsettle hheld session.machine [] (.refl _) hwhole.heap
    have hmoments : (Request.settle value).moments levels session = moments ++
        [⟨.stopped, (Script.settle (invoke levels) levels value session.machine).2.heap⟩] := by
      rw [Request.moments, hnoted]
      rfl
    rw [hmoments]
    refine ⟨_, hmoved.trans (.single (.stopped _)), fun outcome next hrun => ?_⟩
    have hsettled := (Step.settle_run hrun).1
    have hheap : next.heap =
        (Script.settle (invoke levels) levels value session.machine).2.heap := by
      rw [hsettled]
      rfl
    refine ⟨hheap, fun ref => ?_⟩
    obtain ⟨calls, hcalls, hlife⟩ := hlived outcome (congrArg Prod.fst hsettled)
    obtain rfl := Nat.le_zero.mp hcalls
    rw [hheap, works_append, handings_append]
    have hworks {heap : Heap} : works ref [⟨.stopped, heap⟩] = [] := rfl
    have hhandings {heap : Heap} : handings ref [⟨.stopped, heap⟩] = 0 := rfl
    rw [hworks, hhandings, List.append_nil, Nat.add_zero]
    exact hlife.life ref

/-- Noting moments changes nothing else. -/
theorem noted_settle {value : Value} (hwhole : session.Whole) (hvalue : session.Holds value)
    (levels : Nat) :
    let settler := (Settler.calling (invoke levels)).noting
    let after := settleValue (settlePromise settler levels) value (session.machine, [])
    (after.1, after.2.1) = Script.settle (invoke levels) levels value session.machine := by
  intro settler after
  have hsettle {base : Heap} {ref : Ref .promise} (h : base.Has (fun _ => False) ref.place) :=
    settlePromise_lives (invoke_keeps levels) levels ⟨0⟩ h
  obtain ⟨moments, hnoted, -⟩ :=
    Lives.settleValue hsettle hvalue session.machine [] (.refl _) hwhole.heap
  change after = _ at hnoted
  rw [hnoted]
  rfl

/-- A promise that was settled has the outcome that was told. -/
theorem get_of_settle {ref : Ref .promise} (hwhole : session.Whole)
    (hheld : (Request.settle (.promise ref)).Held session)
    (hrun : ((Request.settle (.promise ref)).step levels).run session = some (outcome, next)) :
    next.heap.get ref = .ofOutcome outcome :=
  settlePromise_get (invoke_keeps levels) hwhole.heap hheld (Step.settle_run hrun).1

/-- A promise that has an outcome is not settled again: nothing happens. -/
theorem settle_of_outcome {ref : Ref .promise} (hget : session.heap.get ref = .ofOutcome outcome)
    (levels : Nat) :
    ((Request.settle (.promise ref)).step (levels + 1)).run session = some (outcome, session) ∧
      (Request.settle (.promise ref)).moments (levels + 1) session =
        [⟨.stopped, session.heap⟩] := by
  have hplain : Script.settle (invoke (levels + 1)) (levels + 1) (.promise ref) session.machine =
      (.ok outcome, session.machine) :=
    settlePromise_of_outcome hget
  have hnoted : settleValue (settlePromise (Settler.calling (invoke (levels + 1))).noting
      (levels + 1)) (.promise ref) (session.machine, []) = (.ok outcome, (session.machine, [])) :=
    noting_of_outcome hget
  constructor
  · rw [step, Step.settle_apply, hplain]
  · rw [Request.moments, hnoted]
    rfl

end Request

/-- A session answers requests one after the other. Each comes to an end within some levels. -/
inductive Runs : Session → List (Request × Outcome) → List Moment → Session → Prop
  | nil (session : Session) : Runs session [] [] session
  | snoc {first middle next : Session} {answered : List (Request × Outcome)}
    {moments : List Moment} {request : Request} {levels : Nat} {outcome : Outcome}
    (hruns : Runs first answered moments middle) (hheld : request.Held middle)
    (hrun : (request.step levels).run middle = some (outcome, next)) :
    Runs first (answered ++ [(request, outcome)]) (moments ++ request.moments levels middle) next

namespace Runs

variable {first last : Session} {answered : List (Request × Outcome)} {moments : List Moment}

theorem whole (h : Runs first answered moments last) (hfirst : first.Whole) : last.Whole := by
  induction h with
  | nil => exact hfirst
  | snoc _ hheld hrun ih => exact (Request.kept ih hheld hrun).closed

theorem moved (h : Runs first answered moments last) (hfirst : first.Whole) :
    Moved first.heap moments last.heap := by
  induction h with
  | nil => exact .nil .refl
  | snoc hruns hheld hrun ih =>
    obtain ⟨_, hmoved, hends⟩ := Request.lives (hruns.whole hfirst) hheld _
    obtain ⟨rfl, -⟩ := hends _ _ hrun
    exact ih.trans hmoved

theorem life (h : Runs first answered moments last) (hfirst : first.Whole) (ref : Ref .promise) :
    Life (first.heap.get ref) (works ref moments) (handings ref moments) (last.heap.get ref) := by
  induction h with
  | nil => exact .still _
  | snoc hruns hheld hrun ih =>
    obtain ⟨_, -, hends⟩ := Request.lives (hruns.whole hfirst) hheld _
    obtain ⟨-, hlife⟩ := hends _ _ hrun
    rw [works_append, handings_append]
    exact ih.trans (hlife ref)

/-- An outcome is kept whatever is asked for afterwards. -/
theorem get_of_outcome (h : Runs first answered moments last) (hfirst : first.Whole)
    {ref : Ref .promise} {outcome : Outcome} (hget : first.heap.get ref = .ofOutcome outcome) :
    last.heap.get ref = .ofOutcome outcome := by
  have hlife := h.life hfirst ref
  rw [hget] at hlife
  exact hlife.of_outcome.2.2

/-- What was told of a promise is what it still is. -/
theorem get_of_answer (h : Runs first answered moments last) (hfirst : first.Whole)
    {ref : Ref .promise} {outcome : Outcome}
    (hanswer : (Request.settle (.promise ref), outcome) ∈ answered) :
    last.heap.get ref = .ofOutcome outcome := by
  induction h with
  | nil => cases hanswer
  | snoc hruns hheld hrun ih =>
    have hwhole := hruns.whole hfirst
    rcases List.mem_append.mp hanswer with hearlier | hnow
    · have hthis : Runs _ _ _ _ := .snoc (.nil _) hheld hrun
      exact hthis.get_of_outcome hwhole (ih hearlier)
    · cases List.mem_singleton.mp hnow
      exact Request.get_of_settle hwhole hheld hrun

/-- At first there are no promises. -/
theorem get_new (ref : Ref .promise) : Session.new.heap.get ref = .pending .unresolved := by
  have hnone : Session.new.heap.count .promise = 0 := by decide +kernel
  exact Heap.get_of_le _ ref (by rw [hnone]; exact Nat.zero_le _)

/-- A script whose value is a promise is evaluated, and then that promise is settled. -/
theorem exists_of_script {levels : Nat} {source : String} {ref : Ref .promise} {found : Outcome}
    (h : ((do
      let answer ← Step.evaluate levels source
      let outcome ← Step.settle levels (.promise ref)
      return (answer, outcome) : Step (Outcome × Outcome)).run Session.new).map Prod.fst =
        some (.ok (.promise ref), found)) :
    ∃ middle last,
      (Step.evaluate levels source).run Session.new = some (.ok (.promise ref), middle) ∧
      Runs Session.new [(.evaluate source, .ok (.promise ref)), (.settle (.promise ref), found)]
        ((Request.evaluate source).moments levels Session.new ++
          (Request.settle (.promise ref)).moments levels middle) last := by
  obtain ⟨⟨answers, last⟩, hrun, hanswers⟩ := Option.map_eq_some_iff.mp h
  obtain ⟨answer, middle, hevaluated, hrun⟩ := Step.run_bind_eq_some_iff.mp hrun
  obtain ⟨outcome, next, hsettled, hrun⟩ := Step.run_bind_eq_some_iff.mp hrun
  cases hrun
  cases hanswers
  have hevaluate : ((Request.evaluate source).step levels).run Session.new =
      some (.ok (.promise ref), middle) :=
    hevaluated
  have hnothing : (Request.evaluate source).Held Session.new := trivial
  have hheld : (Request.settle (.promise ref)).Held middle :=
    (Step.evaluate_kept Session.whole_new hevaluated).found
  exact ⟨middle, last, hevaluated, .snoc (.snoc (.nil _) hnothing hevaluate) hheld hsettled⟩

/-- **How promises pass from state to state.** At all moments, also of a request that comes to no
end, each promise makes the steps of its life, but for one that is rejected while its work is being
done and is given an outcome again when that work is over. This happens at most once. -/
theorem passes_along (h : Runs Session.new answered moments last) :
    (∀ (request : Request) (levels : Nat), request.Held last →
      Along (fun act => ReflTransGen (Heap.Passes act)) Session.new.heap
        (moments ++ request.moments levels last)) ∧
    ∀ ref, works ref moments = [] ∨ (∃ outcome, works ref moments = [.began, .ended outcome]) ∨
      ∃ reason outcome,
        works ref moments = [.began, .began, .ended (.error reason), .ended outcome] := by
  have hwhole := Session.whole_new
  constructor
  · intro request levels hheld
    obtain ⟨_, hmoved, -⟩ := Request.lives (h.whole hwhole) hheld levels
    exact ((h.moved hwhole).trans hmoved).along
  · intro ref
    have hlife := h.life hwhole ref
    rw [get_new] at hlife
    generalize works ref moments = done at hlife
    generalize handings ref moments = calls at hlife
    generalize last.heap.get ref = state at hlife
    cases hlife with
    | still | formed => exact .inl rfl
    | settled _ _ outcome => exact .inr (.inl ⟨outcome, rfl⟩)
    | settledTwice _ _ reason outcome => exact .inr (.inr ⟨reason, outcome, rfl⟩)

/-- A script that makes a promise whose handler waits for that promise. -/
def selfWaiting : String :=
  "let p = Promise.resolve('a').then(() => p.catch(() => 'done')); p"

theorem exists_met_again :
    ∃ middle last,
      (Step.evaluate amplyManyLevels selfWaiting).run Session.new =
        some (.ok (.promise ⟨1⟩), middle) ∧
      Runs Session.new
        [(.evaluate selfWaiting, .ok (.promise ⟨1⟩)),
          (.settle (.promise ⟨1⟩), .ok (.string "done"))]
        ((Request.evaluate selfWaiting).moments amplyManyLevels Session.new ++
          (Request.settle (.promise ⟨1⟩)).moments amplyManyLevels middle) last := by
  apply exists_of_script
  decide +kernel

/-- A promise that waits for itself in its handler passes from state to state in that way. -/
theorem passes_along_met_again :
    ∃ answered moments last, Runs Session.new answered moments last ∧
      Along (fun act => ReflTransGen (Heap.Passes act)) Session.new.heap
        (moments ++ (Request.evaluate "p").moments amplyManyLevels last) := by
  obtain ⟨_, last, -, hruns⟩ := exists_met_again
  exact ⟨_, _, last, hruns, hruns.passes_along.1 (.evaluate "p") amplyManyLevels trivial⟩

/-- The promise is rejected while its handler waits for it, and is fulfilled afterwards. -/
theorem rejected_promise_fulfilled :
    ∃ answered moments last, Runs Session.new answered moments last ∧
      (∃ moment ∈ moments, ∃ reason, moment.heap.get (⟨1⟩ : Ref .promise) = .rejected reason) ∧
      last.heap.get (⟨1⟩ : Ref .promise) = .fulfilled (.string "done") := by
  let rejects (moment : Moment) : Bool :=
    match moment.heap.get (⟨1⟩ : Ref .promise) with
    | .rejected _ => true
    | _ => false
  have hmoments : ((Step.evaluate amplyManyLevels selfWaiting).run Session.new).map (fun found =>
      ((Request.settle (.promise ⟨1⟩)).moments amplyManyLevels found.2).any rejects) =
        some true := by
    decide +kernel
  obtain ⟨middle, last, hevaluated, hruns⟩ := exists_met_again
  rw [hevaluated] at hmoments
  obtain ⟨moment, hmem, hrejects⟩ := List.any_eq_true.mp (Option.some.inj hmoments)
  refine ⟨_, _, last, hruns, ⟨moment, List.mem_append_right _ hmem, ?_⟩, ?_⟩
  · revert hrejects
    cases hget : moment.heap.get (⟨1⟩ : Ref .promise) with
    | pending | fulfilled => simp [rejects, hget]
    | rejected reason => exact fun _ => ⟨reason, rfl⟩
  · exact hruns.get_of_answer Session.whole_new (List.mem_cons_of_mem _ List.mem_cons_self)

/-- **Promises between requests.** None is being settled; each that was settled still has the
outcome that was told; one that has an outcome is not settled again and keeps its outcome whatever
is asked for afterwards; and handlers of each were called at most once. -/
theorem promises_rest (h : Runs Session.new answered moments last) :
    (∀ ref : Ref .promise, last.heap.get ref ≠ .pending .running) ∧
    (∀ ref outcome, (Request.settle (.promise ref), outcome) ∈ answered →
      last.heap.get ref = .ofOutcome outcome) ∧
    (∀ (ref : Ref .promise) outcome, last.heap.get ref = .ofOutcome outcome →
      (∀ levels, ((Request.settle (.promise ref)).step (levels + 1)).run last =
          some (outcome, last) ∧
        (Request.settle (.promise ref)).moments (levels + 1) last = [⟨.stopped, last.heap⟩]) ∧
      ∀ later noted next, Runs last later noted next →
        next.heap.get ref = .ofOutcome outcome) ∧
    ∀ ref, handings ref moments ≤ 1 := by
  have hwhole := Session.whole_new
  refine ⟨fun ref => ?_, fun ref outcome hanswer => h.get_of_answer hwhole hanswer,
    fun ref outcome hget => ⟨Request.settle_of_outcome hget, fun later noted next hlater => ?_⟩,
    fun ref => ?_⟩
  · refine (h.life hwhole ref).ne_running ?_
    rw [get_new]
    nofun
  · exact hlater.get_of_outcome (h.whole hwhole) hget
  · exact (h.life hwhole ref).calls_le_one

/-- A promise that was settled rests. -/
theorem promises_rest_after_handler :
    ∃ answered moments last, Runs Session.new answered moments last ∧
      (∀ ref : Ref .promise, last.heap.get ref ≠ .pending .running) ∧
      last.heap.get (⟨1⟩ : Ref .promise) = .fulfilled (.string "a") ∧
      handings ⟨1⟩ moments ≤ 1 := by
  have hscript : ((do
      let answer ← Step.evaluate amplyManyLevels "Promise.resolve('a').then(x => x)"
      let outcome ← Step.settle amplyManyLevels (.promise ⟨1⟩)
      return (answer, outcome) : Step (Outcome × Outcome)).run Session.new).map Prod.fst =
        some (.ok (.promise ⟨1⟩), .ok (.string "a")) := by
    decide +kernel
  obtain ⟨_, last, -, hruns⟩ := exists_of_script hscript
  obtain ⟨hidle, htold, -, hhandings⟩ := hruns.promises_rest
  have hanswer := htold ⟨1⟩ (.ok (.string "a")) (List.mem_cons_of_mem _ List.mem_cons_self)
  exact ⟨_, _, last, hruns, hidle, hanswer, hhandings ⟨1⟩⟩

end Runs

end Doctest.Script
