import Doctest.Script.Scope

/-!
# Global names

The names that every script finds defined.
-/

namespace Doctest.Script.Library

/-- The built-in functions with a global name. -/
def globalFunctions : List Builtin :=
  ErrorKind.all.map .error ++ [.promise, .object, .array, .string, .number, .boolean]

/-- A new object whose properties are built-in functions under their names, after others. -/
def newNamespace (constants : List (String × Value)) (functions : List Builtin) : Eval Value := do
  let members ← functions.mapM fun function => do
    return (function.name, ← Eval.newCallable (.builtin function))
  Eval.newObject (Dict.ofList (constants ++ members))

/-- A new scope with all global names. -/
def newScope : Eval Scope := do
  let frame ← Eval.alloc .frame Dict.empty
  let scope : Scope := ⟨[], frame⟩
  for function in globalFunctions do
    scope.define function.name (← Eval.newCallable (.builtin function)) true
  let constants := [("PI", .number 3.141592653589793), ("E", .number 2.718281828459045)]
  scope.define "Math" (← newNamespace constants (MathFunction.all.map .math)) true
  scope.define "JSON" (← newNamespace [] [.jsonStringify, .jsonParse]) true
  scope.define "NaN" (.number (0.0 / 0.0)) false
  scope.define "Infinity" (.number (1.0 / 0.0)) false
  return scope

end Doctest.Script.Library
