import Doctest.Script.Library.Call
import Doctest.Script.Parse
import Doctest.Script.Scope

/-!
# Running scripts

Expressions and statements are evaluated by recursion on their trees. How a value is called is a
parameter of that, and calls are counted off a number of levels that they may be nested.
-/

namespace Doctest.Script

/-- How deeply calls of closures may be nested. -/
def greatestDepth : Nat :=
  10000

/-- How a callee is written in messages. -/
def Expr.calleeText : Expr → String
  | .ident name _ => name
  | .member target property _ => target.calleeText ++ "." ++ property
  | .index target _ _ => target.calleeText ++ "[...]"
  | .call callee _ _ => callee.calleeText ++ "(...)"
  | _ => "expression"

namespace Eval

/-- The value that an assignment gives its target: that of the right side, or what an operator
makes of the target's value and that. -/
def assigned (op : Option BinaryOp) (current right : Eval Value) : Eval Value := do
  match op with
  | none => right
  | some op =>
    let current ← current
    let right ← right
    ofHeap? (·.operate op current right)

/-- Assigns to a property. -/
def assignProperty (target : Value) (key : String) (op : Option BinaryOp) (right : Eval Value) :
    Eval Value := do
  let value ← assigned op (property target key) right
  setProperty target key value
  return value

/-- Assigns to a name. -/
def assignName (scope : Scope) (name : String) (op : Option BinaryOp) (right : Eval Value) :
    Eval Value := do
  let value ← assigned op (scope.value name) right
  scope.assign name value
  return value

end Eval

mutual

/-- The value of an expression. -/
def evalExpr (invoke : Invoke) (scope : Scope) : Expr → Eval Value
  | .number x _ => return .number x
  | .string s _ => return .string s
  | .bool b _ => return .bool b
  | .null _ => return .null
  | .undefined _ => return .undefined
  | .ident name _ => scope.value name
  | .array items _ => do Eval.newArray (← evalExprs invoke scope items).toArray
  | .object properties _ => do
    Eval.newObject (Dict.ofList (← evalProperties invoke scope properties))
  | .member target property _ => do
    Eval.property (← evalExpr invoke scope target) property
  | .index target key _ => do
    let target ← evalExpr invoke scope target
    let key ← evalExpr invoke scope key
    Eval.property target (← Eval.text key)
  | .call callee args _ => do
    let function ← evalExpr invoke scope callee
    let args ← evalExprs invoke scope args
    if function.isCallable then invoke function args
    else Eval.fail (.notCallable callee.calleeText)
  | .construct callee args _ => do
    let constructor ← evalExpr invoke scope callee
    let args ← evalExprs invoke scope args
    Library.construct invoke constructor args callee.calleeText
  | .arrow params body _ => Eval.newCallable (.closure ⟨none, params, body, scope⟩)
  | .unary .typeof (.ident name _) _ => do
    let value? ← Eval.ofHeap (scope.get? · name)
    return .string (value?.elim "undefined" Value.typeName)
  | .unary op operand _ => do
    let value ← evalExpr invoke scope operand
    Eval.ofHeap? (·.operateUnary op value)
  | .binary op left right _ => do
    let left ← evalExpr invoke scope left
    let right ← evalExpr invoke scope right
    Eval.ofHeap? (·.operate op left right)
  | .logical op left right _ => do
    let left ← evalExpr invoke scope left
    if op.settledBy left then return left else evalExpr invoke scope right
  | .conditional test yes no _ => do
    if (← evalExpr invoke scope test).isTruthy then evalExpr invoke scope yes
    else evalExpr invoke scope no
  | .assign (.ident name _) op value _ =>
    Eval.assignName scope name op (evalExpr invoke scope value)
  | .assign (.member target property _) op value _ => do
    let target ← evalExpr invoke scope target
    Eval.assignProperty target property op (evalExpr invoke scope value)
  | .assign (.index target key _) op value _ => do
    let target ← evalExpr invoke scope target
    let key ← Eval.text (← evalExpr invoke scope key)
    Eval.assignProperty target key op (evalExpr invoke scope value)
  | .assign _ _ _ _ => Eval.fail (.badSource .badTarget)

/-- The values of expressions, from the first to the last. -/
def evalExprs (invoke : Invoke) (scope : Scope) : List Expr → Eval (List Value)
  | [] => return []
  | expr :: rest => do
    let value ← evalExpr invoke scope expr
    return value :: (← evalExprs invoke scope rest)

/-- The keys and values of an object, from the first to the last. -/
def evalProperties (invoke : Invoke) (scope : Scope) :
    List (String × Expr) → Eval (List (String × Value))
  | [] => return []
  | (key, expr) :: rest => do
    let value ← evalExpr invoke scope expr
    return (key, value) :: (← evalProperties invoke scope rest)

end

/-- The value that a declaration gives its name. A function that stands there by itself takes on
the name. -/
def evalInitial (invoke : Invoke) (scope : Scope) (name : String) : Option Expr → Eval Value
  | none => return .undefined
  | some (.arrow params body _) => Eval.newCallable (.closure ⟨some name, params, body, scope⟩)
  | some expr => evalExpr invoke scope expr

mutual

/-- Runs a statement. The result is the value of the last expression statement in it that was
run. -/
def execStmt (invoke : Invoke) (scope : Scope) : Stmt → Eval (Option Value)
  | .expr expr _ => do return some (← evalExpr invoke scope expr)
  | .declare kind name init _ => do
    scope.define name (← evalInitial invoke scope name init) (kind != .byConst)
    return none
  | .throwing expr _ => do Eval.raise (← evalExpr invoke scope expr)
  | .returning none _ => throw (.returned .undefined)
  | .returning (some expr) _ => do throw (.returned (← evalExpr invoke scope expr))
  | .branch test yes no _ => do
    if (← evalExpr invoke scope test).isTruthy then
      execStmts invoke (← scope.nested) yes
    else
      match no with
      | some no => execStmts invoke (← scope.nested) no
      | none => return none
  | .block stmts _ => do execStmts invoke (← scope.nested) stmts

/-- Runs statements one after the other. The result is the last one that there is. -/
def execStmts (invoke : Invoke) (scope : Scope) : List Stmt → Eval (Option Value)
  | [] => return none
  | stmt :: rest => do
    let first ← execStmt invoke scope stmt
    return (← execStmts invoke scope rest).or first

end

/-- The value that the body of a function gives. -/
def evalBody (invoke : Invoke) (scope : Scope) : Body → Eval Value
  | .expr expr => evalExpr invoke scope expr
  | .block stmts => Eval.returnedOr do
    let _ ← execStmts invoke scope stmts
    return .undefined

/-- Binds parameters to arguments; those without an argument are `undefined`. -/
def bindParams (scope : Scope) : List String → List Value → Eval Unit
  | [], _ => return
  | param :: params, args => do
    scope.define param (args.headD .undefined) true
    bindParams scope params args.tail

/-- Counts an evaluation as a call while it runs. -/
def Eval.asCall (eval : Eval Value) : Eval Value :=
  fun ⟨heap, depth⟩ =>
    if depth < greatestDepth then
      match eval ⟨heap, depth + 1⟩ with
      | (result, ⟨heap, depth⟩) => (result, ⟨heap, depth - 1⟩)
    else Eval.fail .callDepth ⟨heap, depth⟩

/-- Calls a function of a script, in a new frame within the scope it was made in. -/
def callClosure (invoke : Invoke) (made : Closure) (args : List Value) : Eval Value :=
  Eval.asCall do
    let scope ← made.scope.nested
    bindParams scope made.params args
    evalBody invoke scope made.body

/-- Calls a value; no more than so many calls may be nested. -/
def invoke : Nat → Invoke
  | 0, _, _ => throw .exhausted
  | levels + 1, callee, args => do
    match callee with
    | .callable ref =>
      match ← Eval.read ref with
      | .closure made => callClosure (invoke levels) made args
      | .builtin function => Library.call (invoke levels) function args
    | other => Eval.fail (.notCallable (← Eval.inspect other))

/-- Runs a program. The result is the value of the last expression statement that was run. -/
def runProgram (invoke : Invoke) (scope : Scope) (program : List Stmt) : Eval Value := do
  try
    return (← execStmts invoke scope program).getD .undefined
  catch
    | .returned _ => Eval.fail (.badSource .strayReturn)
    | signal => throw signal

/-- Runs a source text. -/
def runSource (invoke : Invoke) (scope : Scope) (source : String) : Eval Value :=
  match parse source with
  | .ok program => runProgram invoke scope program
  | .error fault => Eval.fail (.badSource fault.cause)

end Doctest.Script
