import Doctest.Dict
import Doctest.Script.Builtin
import Doctest.Script.Tree

/-!
# The heap

The cells that values refer to. Cells are added and changed and never taken away.
-/

namespace Doctest.Script

/-- The value of a name, and whether it may be assigned to. -/
structure Binding where
  value : Value
  isMutable : Bool

/-- A chain of frames: the inner ones, the innermost first, and the outermost. -/
structure Scope where
  inner : List (Ref .frame)
  outermost : Ref .frame

/-- The frames of a scope, the innermost first. -/
def Scope.chain (scope : Scope) : List (Ref .frame) :=
  scope.inner ++ [scope.outermost]

/-- A function of a script, with the scope it was made in. -/
structure Closure where
  name? : Option String
  params : List String
  body : Body
  scope : Scope

/-- What can be called. -/
inductive Callable where
  | closure (made : Closure)
  | builtin (function : Builtin)

/-- The name of a function; empty if it has none. -/
def Callable.name : Callable → String
  | .closure made => made.name?.getD ""
  | .builtin function => function.name

/-- An error. Its name and message are no properties among the others. -/
structure ErrorObject where
  name : String
  message : String
  properties : Dict Value

/-- The work that settles a promise. -/
inductive Reaction where
  /-- There is none: the promise waits for the functions that settle it. -/
  | unresolved
  /-- It settles as another promise does. -/
  | adopt (source : Ref .promise)
  /-- It settles as another promise does, or as a function of that outcome does. -/
  | andThen (source : Ref .promise) (onFulfilled onRejected : Option Value)
  /-- It is fulfilled with what all items are fulfilled with. -/
  | all (items : List Value)
  /-- The work is being done. -/
  | running

/-- How a promise stands. -/
inductive PromiseState where
  | pending (reaction : Reaction)
  | fulfilled (value : Value)
  | rejected (reason : Value)

/-- What a cell of a kind holds. -/
abbrev Cell : CellKind → Type
  | .array => Array Value
  | .object => Dict Value
  | .error => ErrorObject
  | .callable => Callable
  | .promise => PromiseState
  | .frame => Dict Binding

/-- What is read through a reference without a cell. -/
def Cell.missing : (kind : CellKind) → Cell kind
  | .array => #[]
  | .object => Dict.empty
  | .error => ⟨"", "", Dict.empty⟩
  | .callable => .builtin .object
  | .promise => .pending .unresolved
  | .frame => Dict.empty

/-- The cells of each kind, in the order in which they were made. -/
structure Heap where
  arrays : Array (Array Value)
  objects : Array (Dict Value)
  errors : Array ErrorObject
  callables : Array Callable
  promises : Array PromiseState
  frames : Array (Dict Binding)

namespace Heap

/-- The heap without cells. -/
def empty : Heap :=
  ⟨#[], #[], #[], #[], #[], #[]⟩

/-- The number of cells of a kind. -/
def count (heap : Heap) : CellKind → Nat
  | .array => heap.arrays.size
  | .object => heap.objects.size
  | .error => heap.errors.size
  | .callable => heap.callables.size
  | .promise => heap.promises.size
  | .frame => heap.frames.size

/-- The contents of a cell. -/
@[inline] def get (heap : Heap) : {kind : CellKind} → Ref kind → Cell kind
  | .array, ref => heap.arrays.getD ref.index (Cell.missing .array)
  | .object, ref => heap.objects.getD ref.index (Cell.missing .object)
  | .error, ref => heap.errors.getD ref.index (Cell.missing .error)
  | .callable, ref => heap.callables.getD ref.index (Cell.missing .callable)
  | .promise, ref => heap.promises.getD ref.index (Cell.missing .promise)
  | .frame, ref => heap.frames.getD ref.index (Cell.missing .frame)

/-- Adds a cell. -/
@[inline] def alloc (heap : Heap) : (kind : CellKind) → Cell kind → Ref kind × Heap
  | .array, cell => (⟨heap.arrays.size⟩, { heap with arrays := heap.arrays.push cell })
  | .object, cell => (⟨heap.objects.size⟩, { heap with objects := heap.objects.push cell })
  | .error, cell => (⟨heap.errors.size⟩, { heap with errors := heap.errors.push cell })
  | .callable, cell => (⟨heap.callables.size⟩, { heap with callables := heap.callables.push cell })
  | .promise, cell => (⟨heap.promises.size⟩, { heap with promises := heap.promises.push cell })
  | .frame, cell => (⟨heap.frames.size⟩, { heap with frames := heap.frames.push cell })

/-- Changes the contents of a cell. -/
@[inline] def modify (heap : Heap) :
    {kind : CellKind} → Ref kind → (Cell kind → Cell kind) → Heap
  | .array, ref, f => { heap with arrays := heap.arrays.modify ref.index f }
  | .object, ref, f => { heap with objects := heap.objects.modify ref.index f }
  | .error, ref, f => { heap with errors := heap.errors.modify ref.index f }
  | .callable, ref, f => { heap with callables := heap.callables.modify ref.index f }
  | .promise, ref, f => { heap with promises := heap.promises.modify ref.index f }
  | .frame, ref, f => { heap with frames := heap.frames.modify ref.index f }

end Heap

end Doctest.Script
