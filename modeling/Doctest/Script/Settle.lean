import Doctest.Script.Library.Promise

/-!
# Settling promises

The outcome of a promise is found out only when it is asked for. Then all work that it waits for
is done, depth first, and the outcome is kept. How the work of a promise is taken, how its handlers
are called and how it gets its outcome are parameters of that.
-/

namespace Doctest.Script

/-- What settling does to promises and handlers. -/
structure Settler (m : Type → Type) where
  /-- Takes the work that a promise waits for, which is being done from then on. A promise that has
  an outcome gives that instead. -/
  take : Ref .promise → m (Except Outcome Reaction)
  /-- What a handler of a promise gives or raises for a value. -/
  handle : Ref .promise → Value → Value → m Outcome
  /-- Gives a promise its outcome. -/
  finish : Ref .promise → Outcome → m Unit

/-- Settling by the calls of functions of scripts. -/
def Settler.calling (invoke : Invoke) : Settler Eval where
  take ref := do
    match ← Eval.read ref with
    | .fulfilled value => return .error (.ok value)
    | .rejected reason => return .error (.error reason)
    | .pending reaction =>
      Eval.change ref fun _ => .pending .running
      return .ok reaction
  handle _ handler value := Eval.outcome (invoke handler [value])
  finish ref outcome := Eval.change ref fun _ => .ofOutcome outcome

section

variable {m : Type → Type} [Monad m] [MonadLiftT Eval m]

/-- The outcome of a value: promises are settled, all others are fulfilled already. -/
def settleValue (settle : Ref .promise → m Outcome) (value : Value) : m Outcome :=
  match value with
  | .promise ref => settle ref
  | value => return .ok value

/-- What all items of a list are fulfilled with, or the reason that the first one of them is
rejected for; those after it are left alone. -/
def settleItems (settle : Ref .promise → m Outcome) :
    List Value → m (Except Value (List Value))
  | [] => return .ok []
  | item :: rest => do
    match ← settleValue settle item with
    | .error reason => return .error reason
    | .ok value => return (← settleItems settle rest).map (value :: ·)

/-- The outcome of what a function makes of a value; without a function it is another one. -/
def settleHandler (handle : Value → Value → m Outcome) (settle : Ref .promise → m Outcome)
    (handler : Option Value) (value : Value) (otherwise : Outcome) : m Outcome := do
  match handler with
  | none => return otherwise
  | some handler =>
    match ← handle handler value with
    | .ok result => settleValue settle result
    | .error reason => return .error reason

/-- Does the work that a promise waits for. -/
def react (handle : Value → Value → m Outcome) (settle : Ref .promise → m Outcome)
    (reaction : Reaction) : m Outcome := do
  match reaction with
  | .running => return .error (← Eval.newError .promiseCycle)
  | .unresolved => return .error (← Eval.newError .neverSettled)
  | .adopt source => settle source
  | .andThen source onFulfilled onRejected =>
    match ← settle source with
    | .ok value => settleHandler handle settle onFulfilled value (.ok value)
    | .error reason => settleHandler handle settle onRejected reason (.error reason)
  | .all items =>
    match ← settleItems settle items with
    | .ok values => return .ok (← Eval.newArray values.toArray)
    | .error reason => return .error reason

/-- The outcome of a promise; no more than so many promises may wait for each other. A promise
that is met again while it is being settled waits for itself. -/
def settlePromise (settler : Settler m) : Nat → Ref .promise → m Outcome
  | 0, _ => liftM (throw .exhausted : Eval Outcome)
  | levels + 1, ref => do
    match ← settler.take ref with
    | .error outcome => return outcome
    | .ok reaction =>
      let outcome ← react (settler.handle ref) (settlePromise settler levels) reaction
      settler.finish ref outcome
      return outcome

end

/-- The outcome of a value. -/
def settle (invoke : Invoke) (levels : Nat) (value : Value) : Eval Outcome :=
  settleValue (settlePromise (Settler.calling invoke) levels) value

end Doctest.Script
