import Doctest.Script.Failure
import Doctest.Script.Heap

/-!
# Evaluation

Evaluations read and change a machine, and either give a result or stop with a signal. What was
changed before a signal stays changed.
-/

namespace Doctest.Script

/-- What ends an evaluation early. -/
inductive Signal where
  /-- A value was raised. -/
  | raised (value : Value)
  /-- A function returns. -/
  | returned (value : Value)
  /-- More steps would be needed than were granted. No script can tell, and no finite run of a
  script is ever cut off by it when enough steps are granted. -/
  | exhausted

/-- The heap, and how many calls of closures are being made. -/
structure Machine where
  heap : Heap
  depth : Nat

/-- An evaluation. -/
abbrev Eval := ExceptT Signal (StateM Machine)

/-- How values are called. -/
abbrev Invoke := Value → List Value → Eval Value

namespace Eval

/-- What some function tells about the heap. -/
@[inline] def ofHeap {α : Type} (f : Heap → α) : Eval α :=
  fun machine => (.ok (f machine.heap), machine)

/-- What some function tells about the heap, if it comes to an end. -/
@[inline] def ofHeap? {α : Type} (f : Heap → Option α) : Eval α := do
  match ← ofHeap f with
  | some a => return a
  | none => throw .exhausted

/-- The contents of a cell. -/
@[inline] def read {kind : CellKind} (ref : Ref kind) : Eval (Cell kind) :=
  ofHeap (·.get ref)

/-- Makes a cell. -/
@[inline] def alloc (kind : CellKind) (cell : Cell kind) : Eval (Ref kind) :=
  fun ⟨heap, depth⟩ =>
    let (ref, heap) := heap.alloc kind cell
    (.ok ref, ⟨heap, depth⟩)

/-- Changes the contents of a cell. -/
@[inline] def change {kind : CellKind} (ref : Ref kind) (f : Cell kind → Cell kind) : Eval Unit :=
  fun ⟨heap, depth⟩ => (.ok (), ⟨heap.modify ref f, depth⟩)

/-- A new array. -/
def newArray (items : Array Value) : Eval Value := do
  return .array (← alloc .array items)

/-- A new object. -/
def newObject (properties : Dict Value) : Eval Value := do
  return .object (← alloc .object properties)

/-- A new value to call. -/
def newCallable (callable : Callable) : Eval Value := do
  return .callable (← alloc .callable callable)

/-- A new promise. -/
def newPromise (state : PromiseState) : Eval Value := do
  return .promise (← alloc .promise state)

/-- The error that scripts see of a failure. -/
def newError (failure : Failure) : Eval Value := do
  return .error (← alloc .error ⟨failure.kind.name, failure.message, Dict.empty⟩)

/-- Raises a value. -/
@[inline] def raise {α : Type} (value : Value) : Eval α :=
  throw (.raised value)

/-- Raises the error of a failure. -/
def fail {α : Type} (failure : Failure) : Eval α := do
  raise (← newError failure)

/-- The value that an evaluation gives or raises. -/
@[inline] def outcome (eval : Eval Value) : Eval (Except Value Value) :=
  fun machine =>
    match eval machine with
    | (.ok value, machine) => (.ok (.ok value), machine)
    | (.error (.raised reason), machine) => (.ok (.error reason), machine)
    | (.error signal, machine) => (.error signal, machine)

/-- The value that an evaluation gives, or the one with which it returns. -/
@[inline] def returnedOr (eval : Eval Value) : Eval Value :=
  fun machine =>
    match eval machine with
    | (.error (.returned value), machine) => (.ok value, machine)
    | result => result

end Eval

end Doctest.Script
