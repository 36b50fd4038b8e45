import Doctest.Proofs.Script.Keeping.Rules

/-!
# The steps of evaluations

What evaluating a script does to the heap, step by step. Promises are made, and those that wait to
be resolved are resolved; no other promise changes, whatever is evaluated.
-/

namespace Doctest.Script

open Relation

/-- The states in which scripts make promises. None adopts another promise or is being settled. -/
inductive PromiseState.Made : PromiseState → Prop
  | unresolved : Made (.pending .unresolved)
  | andThen (source : Ref .promise) (onFulfilled onRejected : Option Value) :
    Made (.pending (.andThen source onFulfilled onRejected))
  | all (items : List Value) : Made (.pending (.all items))
  | fulfilled {value : Value} (h : ∀ ref, value ≠ .promise ref) : Made (.fulfilled value)
  | rejected (reason : Value) : Made (.rejected reason)

/-- The states that a promise is resolved to. It is fulfilled with no other promise, but adopts
it. -/
inductive PromiseState.Resolved : PromiseState → Prop
  | adopt (source : Ref .promise) : Resolved (.pending (.adopt source))
  | fulfilled {value : Value} (h : ∀ ref, value ≠ .promise ref) : Resolved (.fulfilled value)
  | rejected (reason : Value) : Resolved (.rejected reason)

/-- The names of the fields that every error has. -/
def ErrorObject.IsField (key : String) : Prop :=
  key = "name" ∨ key = "message"

/-- A cell as scripts make it: an error has no properties at first, or those of an object. -/
def Cell.Made (heap : Heap) : {kind : CellKind} → Cell kind → Prop
  | .error, error =>
    ErrorObject.properties error = Dict.empty ∨
      ∃ options : Ref .object, ErrorObject.properties error = heap.get options
  | _, _ => True

/-- A change of a cell as scripts make it: an object keeps its keys, and what an error has among
its properties under the names of its fields stays as it is. -/
def Cell.Changed : {kind : CellKind} → (Cell kind → Cell kind) → Prop
  | .object, f => ∀ properties key, Dict.contains properties key = true →
    Dict.contains (f properties) key = true
  | .error, f => ∀ error key, ErrorObject.IsField key →
    (ErrorObject.properties (f error)).get? key = (ErrorObject.properties error).get? key
  | _, _ => True

/-- One change that an evaluation makes: a cell is made or changed that is no promise, a promise
is made, or one that waits for it is resolved. -/
inductive Heap.Step : Heap → Heap → Prop
  | alloc {heap : Heap} {kind : CellKind} (cell : Cell kind) (hkind : kind ≠ .promise)
    (hmade : Cell.Made heap cell) : Step heap (heap.alloc kind cell).2
  | modify {heap : Heap} {kind : CellKind} (ref : Ref kind) (f : Cell kind → Cell kind)
    (hkind : kind ≠ .promise) (hchanged : Cell.Changed f) : Step heap (heap.modify ref f)
  | make {heap : Heap} {state : PromiseState} (h : state.Made) :
    Step heap (heap.alloc .promise state).2
  | resolve {heap : Heap} {ref : Ref .promise} {state : PromiseState}
    (hwaits : heap.get ref = .pending .unresolved) (h : state.Resolved) :
    Step heap (heap.modify ref fun _ => state)

namespace Eval

variable {α : Type} {apart : Place → Prop} {returns : Prop} {base : Heap}
  {result : Heap → α → Prop}

/-- An evaluation that makes only steps of evaluations and gives something. -/
abbrev Gives (apart : Place → Prop) (returns : Prop) (base : Heap) (result : Heap → α → Prop)
    (eval : Eval α) : Prop :=
  Keeps Heap.Step apart returns base result eval

/-- An evaluation that gives a value of the heap. -/
abbrev GivesValue (apart : Place → Prop) (returns : Prop) (base : Heap) (eval : Eval Value) :
    Prop :=
  Gives apart returns base (fun heap value => value.Of apart heap) eval

/-- An evaluation of which nothing is known but what it keeps. -/
abbrev Runs (apart : Place → Prop) (returns : Prop) (base : Heap) (eval : Eval α) : Prop :=
  Gives apart returns base (fun _ _ => True) eval

theorem Gives.toRuns {eval : Eval α} (h : Gives apart returns base result eval) :
    Runs apart returns base eval :=
  h.mono fun _ _ _ _ => trivial

end Eval

end Doctest.Script
