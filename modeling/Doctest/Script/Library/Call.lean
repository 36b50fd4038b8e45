import Doctest.Script.Library.Json
import Doctest.Script.Library.Number
import Doctest.Script.Library.Object
import Doctest.Script.Library.Promise
import Doctest.Script.Library.String

/-!
# Calling built-in functions
-/

namespace Doctest.Script.Library

/-- Calls a built-in function. -/
def call (invoke : Invoke) (function : Builtin) (args : List Value) : Eval Value := do
  let first := args.getD 0 .undefined
  match function with
  | .error kind => newErrorOf kind args
  | .promise => Eval.fail .promiseWithoutNew
  | .promiseResolve => promiseOf first
  | .promiseReject => Eval.newPromise (.rejected first)
  | .promiseAll => promiseOfAll first
  | .resolver target rejects =>
    resolve target (if rejects then .error first else .ok first)
    return .undefined
  | .object => toObject first
  | .objectKeys => keys first
  | .objectValues => values first
  | .objectEntries => entries first
  | .array => newArrayOf args
  | .arrayIsArray => return .bool (first matches .array _)
  | .string => if args.isEmpty then return .string "" else return .string (← Eval.text first)
  | .number => if args.isEmpty then return .number 0.0 else return .number (← Eval.number first)
  | .boolean => return .bool first.isTruthy
  | .math function => callMath function args
  | .jsonStringify => stringify first (args.getD 2 .undefined)
  | .jsonParse => parseJson first
  | .arrayMethod receiver method => callArrayMethod invoke receiver method args
  | .stringMethod receiver method => callStringMethod receiver method args
  | .numberMethod receiver method => callNumberMethod receiver method args
  | .promiseMethod receiver method => callPromiseMethod receiver method args

/-- Calls a value after `new`. Most constructors do the same as without it. -/
def construct (invoke : Invoke) (callee : Value) (args : List Value) (shown : String) :
    Eval Value := do
  match callee with
  | .callable ref =>
    match ← Eval.read ref with
    | .builtin .promise => newPromiseBy invoke args
    | .builtin function =>
      if function.isConstructor then call invoke function args
      else Eval.fail (.notConstructor shown)
    | .closure _ => Eval.fail (.notConstructor shown)
  | _ => Eval.fail (.notConstructor shown)

end Doctest.Script.Library
