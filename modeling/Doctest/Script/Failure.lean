import Doctest.Script.Builtin
import Doctest.Script.Token

/-!
# Failures

What the script language itself raises, as causes. Each is seen by scripts as an error of a kind
with a message.
-/

namespace Doctest.Script

/-- What goes wrong while a script runs. Values and callees are given as they are shown. -/
inductive Failure where
  /-- The source text cannot be read. -/
  | badSource (cause : FaultCause)
  | unknownName (name : String)
  | constantAssignment
  | notCallable (shown : String)
  | notConstructor (shown : String)
  /-- A property is read of `undefined` or `null`. -/
  | readOfNothing (target key : String)
  /-- A property is written of `undefined` or `null`. -/
  | writeOfNothing (target key : String)
  /-- The properties of `undefined` or `null` are listed. -/
  | listOfNothing
  | arrayLength
  /-- Calls are nested too deeply. -/
  | callDepth
  | promiseWithoutNew
  | badExecutor (shown : String)
  | notIterable (shown : String)
  /-- A promise waits for itself. -/
  | promiseCycle
  | neverSettled
  | emptyReduce
  | decimalPlaces
  | repeatCount (shown : String)
  | stringLength
  | circularJson
  | badJson (text : String)
  deriving DecidableEq

namespace Failure

/-- The kind of error that a failure is. -/
def kind : Failure → ErrorKind
  | .badSource _ | .badJson _ => .syntactic
  | .unknownName _ => .reference
  | .arrayLength | .callDepth | .decimalPlaces | .repeatCount _ | .stringLength => .range
  | .neverSettled => .plain
  | _ => .type

/-- The message of a failure. -/
def message : Failure → String
  | .badSource cause => cause.message
  | .unknownName name => name ++ " is not defined"
  | .constantAssignment => "Assignment to constant variable."
  | .notCallable shown => shown ++ " is not a function"
  | .notConstructor shown => shown ++ " is not a constructor"
  | .readOfNothing target key =>
    "Cannot read properties of " ++ target ++ " (reading '" ++ key ++ "')"
  | .writeOfNothing target key =>
    "Cannot set properties of " ++ target ++ " (setting '" ++ key ++ "')"
  | .listOfNothing => "Cannot convert undefined or null to object"
  | .arrayLength => "Invalid array length"
  | .callDepth => "Maximum call stack size exceeded"
  | .promiseWithoutNew => "Promise constructor cannot be invoked without 'new'"
  | .badExecutor shown => "Promise resolver " ++ shown ++ " is not a function"
  | .notIterable shown => shown ++ " is not iterable"
  | .promiseCycle => "Chaining cycle detected for promise #<Promise>"
  | .neverSettled => "Promise was never settled"
  | .emptyReduce => "Reduce of empty array with no initial value"
  | .decimalPlaces => "toFixed() digits argument must be between 0 and 100"
  | .repeatCount shown => "Invalid count value: " ++ shown
  | .stringLength => "Invalid string length"
  | .circularJson => "Converting circular structure to JSON"
  | .badJson text => "\"" ++ text ++ "\" is not valid JSON"

end Failure

end Doctest.Script
