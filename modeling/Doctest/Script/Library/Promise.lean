import Doctest.Script.Property

/-!
# Promises

Making promises. None of this settles a promise that another one waits for: work that is put off
is only noted.
-/

namespace Doctest.Script

/-- What becomes of a promise: a value it is fulfilled with, or a reason to reject it. -/
abbrev Outcome := Except Value Value

/-- The state of a promise with an outcome. -/
def PromiseState.ofOutcome : Outcome → PromiseState
  | .ok value => .fulfilled value
  | .error reason => .rejected reason

namespace Library

/-- What a promise becomes when it is resolved: it follows another promise, but not itself. -/
def resolvedState (ref : Ref .promise) (outcome : Outcome) : Eval PromiseState := do
  match outcome with
  | .ok (.promise source) =>
    if source = ref then return .rejected (← Eval.newError .promiseCycle)
    else return .pending (.adopt source)
  | outcome => return .ofOutcome outcome

/-- Resolves a promise that waits for it; the others stay as they are. -/
def resolve (ref : Ref .promise) (outcome : Outcome) : Eval Unit := do
  match ← Eval.read ref with
  | .pending .unresolved =>
    let state ← resolvedState ref outcome
    Eval.change ref fun _ => state
  | _ => return

/-- The argument itself if it is a promise, and else a promise fulfilled with it. -/
def promiseOf (value : Value) : Eval Value :=
  match value with
  | .promise ref => return .promise ref
  | value => Eval.newPromise (.fulfilled value)

/-- A promise for all items of an array. -/
def promiseOfAll (items : Value) : Eval Value := do
  match items with
  | .array ref => Eval.newPromise (.pending (.all (← Eval.read ref).toList))
  | other =>
    let shown ← Eval.inspect other
    Eval.newPromise (.rejected (← Eval.newError (.notIterable shown)))

/-- A promise that a function settles, which is called at once. If it raises a value, that is the
reason to reject the promise. -/
def newPromiseBy (invoke : Invoke) (args : List Value) : Eval Value := do
  let executor := args.getD 0 .undefined
  if executor.isCallable then
    let ref ← Eval.alloc .promise (.pending .unresolved)
    let resolver ← Eval.newCallable (.builtin (.resolver ref false))
    let rejecter ← Eval.newCallable (.builtin (.resolver ref true))
    match ← Eval.outcome (invoke executor [resolver, rejecter]) with
    | .ok _ => return .promise ref
    | .error reason =>
      resolve ref (.error reason)
      return .promise ref
  else Eval.fail (.badExecutor (← Eval.inspect executor))

/-- An argument, if it can be called. -/
def handler? (arg : Option Value) : Option Value :=
  arg.filter (·.isCallable)

/-- Calls a method of a promise: the result waits for it. -/
def callPromiseMethod (ref : Ref .promise) (method : PromiseMethod) (args : List Value) :
    Eval Value :=
  match method with
  | .andThen =>
    Eval.newPromise (.pending (.andThen ref (handler? args[0]?) (handler? args[1]?)))
  | .onRejected => Eval.newPromise (.pending (.andThen ref none (handler? args[0]?)))

end Library

end Doctest.Script
