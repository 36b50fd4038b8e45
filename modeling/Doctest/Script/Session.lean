import Doctest.Script.Evaluate
import Doctest.Script.Library.Globals
import Doctest.Script.Settle

/-!
# Sessions

A session is a scope that outlives the scripts that are run in it. Every step of a session tells
its outcome, or that it has none within the levels of nested calls that were granted.
-/

namespace Doctest.Script

/-- A machine and the scope that scripts are run in. -/
structure Session where
  machine : Machine
  scope : Scope

/-- More levels than a script can reach that comes to an end. -/
def amplyManyLevels : Nat :=
  1000000

/-- A step of a session. It has no result if it does not come to an end. -/
abbrev Step := StateT Session Option

namespace Session

/-- A session in which nothing was run. -/
def new : Session :=
  match Library.newScope ⟨Heap.empty, 0⟩ with
  | (.ok scope, machine) => ⟨machine, scope⟩
  | (.error _, machine) => ⟨machine, ⟨[], ⟨0⟩⟩⟩

/-- The heap of a session. -/
def heap (session : Session) : Heap :=
  session.machine.heap

/-- The value of a name. -/
def get? (session : Session) (name : String) : Option Value :=
  session.scope.get? session.heap name

end Session

namespace Step

/-- What an evaluation gives or raises. -/
def ofEval (eval : Scope → Eval Value) : Step Outcome :=
  fun ⟨machine, scope⟩ =>
    match eval scope machine with
    | (.ok value, machine) => some (.ok value, ⟨machine, scope⟩)
    | (.error (.raised reason), machine) => some (.error reason, ⟨machine, scope⟩)
    | (.error (.returned value), machine) => some (.error value, ⟨machine, scope⟩)
    | (.error .exhausted, _) => none

/-- Runs a source text. -/
def evaluate (levels : Nat) (source : String) : Step Outcome :=
  ofEval fun scope => runSource (invoke levels) scope source

/-- Settles a value. -/
def settle (levels : Nat) (value : Value) : Step Outcome :=
  fun ⟨machine, scope⟩ =>
    match Script.settle (invoke levels) levels value machine with
    | (.ok outcome, machine) => some (outcome, ⟨machine, scope⟩)
    | (.error _, _) => none

/-- Reads a property of a value. -/
def property (target : Value) (key : String) : Step Outcome :=
  ofEval fun _ => Eval.property target key

/-- Binds a name to the value that a JSON text stands for. -/
def define (name : String) (json : Json) : Step Outcome :=
  ofEval fun scope => do
    let value ← ofJson json
    scope.define name value true
    return value

end Step

end Doctest.Script
