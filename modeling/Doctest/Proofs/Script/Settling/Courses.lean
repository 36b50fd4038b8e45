import Doctest.Proofs.Script.Settling.Lives

/-!
# Courses of settling

Which promises are asked for their work while a value is settled, what they answer, and which
handlers are called on which machines. A settler notes that and does what the one of scripts does.
-/

namespace Doctest.Script

/-- What is noted while a value is settled. -/
inductive Event where
  /-- A promise was asked for its work, and gave that or the outcome that it had. -/
  | asked (ref : Ref .promise) (found : Except Outcome Reaction)
  /-- A handler is called for a value on a machine. -/
  | called (handler value : Value) (start : Machine)

/-- What an evaluation comes to, the machine that it leaves, and what was noted of it. -/
structure Course (α : Type) where
  found : Except Signal α
  last : Machine
  events : List Event

/-- A course that comes after some events. -/
def Course.after {α : Type} (events : List Event) (course : Course α) : Course α :=
  { course with events := events ++ course.events }

/-- An evaluation of which something is noted. -/
def Tracing (α : Type) : Type :=
  Machine → Course α

/-- The course of settling a promise, where some work was taken and that course is the work's. -/
def Course.settled (ref : Ref .promise) (reaction : Reaction) : Course Outcome → Course Outcome
  | ⟨.ok outcome, last, events⟩ =>
    ⟨.ok outcome, ⟨last.heap.finished ref outcome, last.depth⟩, .asked ref (.ok reaction) :: events⟩
  | ⟨.error signal, last, events⟩ =>
    ⟨.error signal, last, .asked ref (.ok reaction) :: events⟩

theorem Course.events_settled (ref : Ref .promise) (reaction : Reaction) (course : Course Outcome) :
    (course.settled ref reaction).events = .asked ref (.ok reaction) :: course.events := by
  rcases course with ⟨_ | _, last, events⟩ <;> rfl

namespace Tracing

variable {α β : Type}

instance : Monad Tracing where
  pure a := fun start => ⟨.ok a, start, []⟩
  bind x f := fun start =>
    match x start with
    | ⟨.ok a, middle, events⟩ => (f a middle).after events
    | ⟨.error signal, last, events⟩ => ⟨.error signal, last, events⟩

instance : MonadLift Eval Tracing where
  monadLift eval := fun start => ⟨(eval start).1, (eval start).2, []⟩

/-- Notes something about the machine that there is. -/
def note (event : Machine → Event) : Tracing Unit :=
  fun start => ⟨.ok (), start, [event start]⟩

theorem lift_apply (eval : Eval α) (start : Machine) :
    (liftM eval : Tracing α) start = ⟨(eval start).1, (eval start).2, []⟩ :=
  rfl

theorem bind_apply (x : Tracing α) (f : α → Tracing β) (start : Machine) :
    (x >>= f) start =
      match x start with
      | ⟨.ok a, middle, events⟩ => (f a middle).after events
      | ⟨.error signal, last, events⟩ => ⟨.error signal, last, events⟩ :=
  rfl

end Tracing

/-- A settler that does the same and notes what promises answer and which handlers are called. -/
def Settler.tracing (settler : Settler Eval) : Settler Tracing where
  take ref := do
    let found ← settler.take ref
    Tracing.note fun _ => .asked ref found
    return found
  handle ref handler value := do
    Tracing.note fun start => .called handler value start
    settler.handle ref handler value
  finish ref outcome := settler.finish ref outcome

theorem Settler.tracing_take_apply (settler : Settler Eval) (ref : Ref .promise)
    (start : Machine) :
    settler.tracing.take ref start =
      match settler.take ref start with
      | (.ok found, last) => ⟨.ok found, last, [.asked ref found]⟩
      | (.error signal, last) => ⟨.error signal, last, []⟩ := by
  unfold Settler.tracing
  dsimp only
  rw [Tracing.bind_apply, Tracing.lift_apply]
  rcases settler.take ref start with ⟨_ | _, last⟩ <;> rfl

theorem Settler.tracing_handle_apply (settler : Settler Eval) (ref : Ref .promise)
    (handler value : Value) (start : Machine) :
    settler.tracing.handle ref handler value start =
      ⟨(settler.handle ref handler value start).1, (settler.handle ref handler value start).2,
        [.called handler value start]⟩ :=
  rfl

/-- The course of settling a value. -/
def course (levels : Nat) (value : Value) : Tracing Outcome :=
  settleValue (settlePromise (Settler.calling (invoke levels)).tracing levels) value

section

variable {invoke : Invoke} {within : Nat} {ref : Ref .promise} {start : Machine}

/-- A promise with an outcome is asked for its work and gives that. -/
theorem tracing_of_outcome {outcome : Outcome} (hget : start.heap.get ref = .ofOutcome outcome) :
    settlePromise (Settler.calling invoke).tracing (within + 1) ref start =
      ⟨.ok outcome, start, [.asked ref (.error outcome)]⟩ := by
  rw [settlePromise, Tracing.bind_apply, Settler.tracing_take_apply, take_apply, hget]
  cases outcome <;> rfl

/-- A promise that has no outcome is asked for its work, and that is done. -/
theorem tracing_of_pending {reaction : Reaction} (hget : start.heap.get ref = .pending reaction) :
    settlePromise (Settler.calling invoke).tracing (within + 1) ref start =
      (react ((Settler.calling invoke).tracing.handle ref)
        (settlePromise (Settler.calling invoke).tracing within) reaction
        ⟨start.heap.taken ref, start.depth⟩).settled ref reaction := by
  rw [settlePromise, Tracing.bind_apply, Settler.tracing_take_apply, take_apply, hget]
  dsimp only
  rw [Tracing.bind_apply]
  rcases (react _ _ reaction : Tracing Outcome) _ with ⟨_ | outcome, last, events⟩
  case error => rfl
  case ok =>
    change Course.mk _ _ ([_] ++ (events ++ [])) = _
    rw [List.append_nil]
    rfl

end

/-! ### Noting changes nothing else -/

/-- An evaluation that is noted does what a plain one does. -/
def Traces {α : Type} (traced : Tracing α) (plain : Eval α) : Prop :=
  ∀ start, plain start = ((traced start).found, (traced start).last)

namespace Traces

variable {α β : Type}

theorem lift (eval : Eval α) : Traces (liftM eval) eval :=
  fun _ => rfl

theorem pure (a : α) : Traces (Pure.pure a) (Pure.pure a) :=
  fun _ => rfl

theorem bind {x : Tracing α} {f : α → Tracing β} {x' : Eval α} {f' : α → Eval β}
    (hx : Traces x x') (hf : ∀ a, Traces (f a) (f' a)) : Traces (x >>= f) (x' >>= f') := by
  intro start
  rw [Eval.bind_apply, hx start, Tracing.bind_apply]
  rcases x start with ⟨signal | a, middle, events⟩
  case error => rfl
  case ok => exact hf a middle

/-- What is noted before an evaluation does not change it. -/
theorem noted {x : Tracing α} {x' : Eval α} (hx : Traces x x') (event : Machine → Event) :
    Traces (Tracing.note event >>= fun _ => x) x' := by
  intro start
  rw [hx start, Tracing.bind_apply]
  rfl

section

variable {traced : Ref .promise → Tracing Outcome} {plain : Ref .promise → Eval Outcome}
  (hsettle : ∀ ref, Traces (traced ref) (plain ref))
include hsettle

theorem settleValue (value : Value) :
    Traces (Script.settleValue traced value) (Script.settleValue plain value) := by
  unfold Script.settleValue
  split
  · exact hsettle _
  · exact pure _

theorem settleItems (items : List Value) :
    Traces (Script.settleItems traced items) (Script.settleItems plain items) := by
  induction items with
  | nil => exact pure _
  | cons item rest ih =>
    refine bind (settleValue hsettle item) fun found => ?_
    cases found with
    | error reason => exact pure _
    | ok value => exact bind ih fun _ => pure _

variable {handleTraced : Value → Value → Tracing Outcome} {handle : Value → Value → Eval Outcome}
  (hhandle : ∀ handler value, Traces (handleTraced handler value) (handle handler value))
include hhandle

theorem settleHandler (handler : Option Value) (value : Value) (otherwise : Outcome) :
    Traces (Script.settleHandler handleTraced traced handler value otherwise)
      (Script.settleHandler handle plain handler value otherwise) := by
  cases handler with
  | none => exact pure _
  | some handler =>
    refine bind (hhandle handler value) fun found => ?_
    cases found with
    | ok result => exact settleValue hsettle result
    | error reason => exact pure _

theorem react (reaction : Reaction) :
    Traces (Script.react handleTraced traced reaction) (Script.react handle plain reaction) := by
  cases reaction with
  | running | unresolved => exact bind (lift _) fun _ => pure _
  | adopt source => exact hsettle source
  | andThen source onFulfilled onRejected =>
    refine bind (hsettle source) fun found => ?_
    cases found with
    | ok value => exact settleHandler hsettle hhandle _ _ _
    | error reason => exact settleHandler hsettle hhandle _ _ _
  | all items =>
    refine bind (settleItems hsettle items) fun found => ?_
    cases found with
    | ok values => exact bind (lift _) fun _ => pure _
    | error reason => exact pure _

end

theorem settlePromise (settler : Settler Eval) (within : Nat) (ref : Ref .promise) :
    Traces (settlePromise settler.tracing within ref) (settlePromise settler within ref) := by
  induction within generalizing ref with
  | zero => exact lift _
  | succ within ih =>
    have hfind : Traces (settler.tracing.take ref) (settler.take ref) := by
      intro start
      rw [settler.tracing_take_apply]
      rcases settler.take ref start with ⟨_ | _, _⟩ <;> rfl
    have hhandle (handler value : Value) :
        Traces (settler.tracing.handle ref handler value) (settler.handle ref handler value) :=
      noted (lift _) _
    refine bind hfind fun found => ?_
    cases found with
    | error outcome => exact pure _
    | ok reaction => exact bind (react ih hhandle reaction) fun _ => bind (lift _) fun _ => pure _

end Traces

/-- Settling a value does what its course tells. -/
theorem settle_eq_course (levels : Nat) (value : Value) (start : Machine) :
    settle (invoke levels) levels value start =
      ((course levels value start).found, (course levels value start).last) :=
  Traces.settleValue (Traces.settlePromise _ levels) value start

end Doctest.Script
