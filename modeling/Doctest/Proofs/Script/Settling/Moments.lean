import Doctest.Proofs.Script.Keeping.Steps
import Doctest.Script.Settle

/-!
# The moments of settling

What happens one after the other while promises are settled, with the heap that there is at each
moment. The moments are noted by a settler that does what the one of scripts does. Between two
moments only scripts are evaluated, so the heap makes steps of evaluations there.
-/

namespace Doctest.Script

open Relation

/-- What happens at a moment. -/
inductive Act where
  /-- The work that a promise waits for was taken. -/
  | began (ref : Ref .promise)
  /-- A handler of a promise is called for a value. -/
  | handed (ref : Ref .promise) (handler value : Value)
  /-- The handler of a promise gave or raised something. -/
  | answered (ref : Ref .promise) (outcome : Outcome)
  /-- A promise was given an outcome. -/
  | ended (ref : Ref .promise) (outcome : Outcome)
  /-- Nothing more is done for a request to a session: it is over, or comes to no end. -/
  | stopped

/-- What happened, and the heap right after that. -/
structure Moment where
  act : Act
  heap : Heap

/-- An evaluation that notes moments. They stay noted after a signal. -/
abbrev Noting := ExceptT Signal (StateM (Machine × List Moment))

namespace Noting

variable {α β : Type}

instance : MonadLift Eval Noting where
  monadLift eval := fun (machine, noted) =>
    let (found, machine) := eval machine
    (found, (machine, noted))

/-- Notes that something happened. -/
def note (act : Act) : Noting Unit :=
  fun (machine, noted) => (.ok (), (machine, noted ++ [⟨act, machine.heap⟩]))

theorem lift_apply (eval : Eval α) (start : Machine) (noted : List Moment) :
    (liftM eval : Noting α) (start, noted) = ((eval start).1, ((eval start).2, noted)) :=
  rfl

theorem bind_apply (x : Noting α) (f : α → Noting β) (start : Machine × List Moment) :
    (x >>= f) start =
      match x start with
      | (.ok a, middle) => f a middle
      | (.error signal, middle) => (.error signal, middle) := by
  change (match x start with | (found, middle) => ExceptT.bindCont f found middle) = _
  rcases x start with ⟨_ | _, middle⟩ <;> rfl

end Noting

/-- A settler that does the same and notes when work is taken, when handlers are called and when
outcomes are given. -/
def Settler.noting (settler : Settler Eval) : Settler Noting where
  take ref := do
    match ← settler.take ref with
    | .error outcome => return .error outcome
    | .ok reaction =>
      Noting.note (.began ref)
      return .ok reaction
  handle ref handler value := do
    Noting.note (.handed ref handler value)
    let outcome ← settler.handle ref handler value
    Noting.note (.answered ref outcome)
    return outcome
  finish ref outcome := do
    settler.finish ref outcome
    Noting.note (.ended ref outcome)

/-! ### What happens to one promise -/

/-- What settling does with one promise. -/
inductive Work where
  | began
  | ended (outcome : Outcome)

/-- What an act does with a promise, if it is about that. -/
def Act.work? (ref : Ref .promise) : Act → Option Work
  | .began other => if other = ref then some .began else none
  | .ended other outcome => if other = ref then some (.ended outcome) else none
  | .handed .. | .answered .. | .stopped => none

/-- Whether a handler of a promise is called. -/
def Act.hands (ref : Ref .promise) : Act → Bool
  | .handed other _ _ => other = ref
  | .began _ | .answered .. | .ended .. | .stopped => false

/-- What is done with a promise at some moments. -/
def works (ref : Ref .promise) (moments : List Moment) : List Work :=
  moments.filterMap fun moment => moment.act.work? ref

/-- How often handlers of a promise are called. -/
def handings (ref : Ref .promise) (moments : List Moment) : Nat :=
  moments.countP fun moment => moment.act.hands ref

variable {ref : Ref .promise} {moments rest : List Moment}

@[simp] theorem works_nil : works ref [] = [] :=
  rfl

@[simp] theorem works_cons {moment : Moment} :
    works ref (moment :: moments) = (moment.act.work? ref).toList ++ works ref moments := by
  rw [works, List.filterMap_cons]
  cases moment.act.work? ref <;> rfl

@[simp] theorem works_append : works ref (moments ++ rest) = works ref moments ++ works ref rest :=
  List.filterMap_append

@[simp] theorem handings_nil : handings ref [] = 0 :=
  rfl

@[simp] theorem handings_cons {moment : Moment} :
    handings ref (moment :: moments) =
      handings ref moments + if moment.act.hands ref then 1 else 0 :=
  List.countP_cons

@[simp] theorem handings_append :
    handings ref (moments ++ rest) = handings ref moments + handings ref rest :=
  List.countP_append

/-! ### How the heap changes -/

/-- What is done to the heap right before a moment. Outcomes are given to promises that are being
settled, and to those that have been rejected. -/
inductive Act.Moves : Act → Heap → Heap → Prop
  | began {heap : Heap} {ref : Ref .promise} {reaction : Reaction}
    (h : heap.get ref = .pending reaction) :
    Moves (.began ref) heap (heap.modify ref fun _ => .pending .running)
  | handed (heap : Heap) (ref : Ref .promise) (handler value : Value) :
    Moves (.handed ref handler value) heap heap
  | answered (heap : Heap) (ref : Ref .promise) (outcome : Outcome) :
    Moves (.answered ref outcome) heap heap
  | ended {heap : Heap} {ref : Ref .promise} (outcome : Outcome)
    (h : heap.get ref = .pending .running ∨ ∃ reason, heap.get ref = .rejected reason) :
    Moves (.ended ref outcome) heap (heap.modify ref fun _ => .ofOutcome outcome)
  | stopped (heap : Heap) : Moves .stopped heap heap

/-- The heap goes from one moment to the next by steps of evaluations and what the moment is
about. -/
inductive Moved : Heap → List Moment → Heap → Prop
  | nil {start last : Heap} (hsteps : ReflTransGen Heap.Step start last) : Moved start [] last
  | cons {start before last : Heap} {moment : Moment} {moments : List Moment}
    (hsteps : ReflTransGen Heap.Step start before)
    (hmoves : moment.act.Moves before moment.heap) (hrest : Moved moment.heap moments last) :
    Moved start (moment :: moments) last

namespace Moved

variable {start middle last : Heap}

/-- Something that happens, and nothing else. -/
theorem single {act : Act} (h : act.Moves start last) : Moved start [⟨act, last⟩] last :=
  .cons .refl h (.nil .refl)

theorem after (hsteps : ReflTransGen Heap.Step start middle) (h : Moved middle moments last) :
    Moved start moments last := by
  cases h with
  | nil hrest => exact .nil (hsteps.trans hrest)
  | cons hmore hmoves hrest => exact .cons (hsteps.trans hmore) hmoves hrest

theorem trans (h : Moved start moments middle) (hrest : Moved middle rest last) :
    Moved start (moments ++ rest) last := by
  induction h with
  | nil hsteps => exact hrest.after hsteps
  | cons hsteps hmoves _ ih => exact .cons hsteps hmoves (ih hrest)

end Moved

end Doctest.Script
