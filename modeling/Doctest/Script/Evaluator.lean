import Doctest.Check.Evaluator
import Doctest.Script.Session

/-!
# Scripts as examples

The script language as a language whose examples can be checked.
-/

namespace Doctest.Script

namespace Step

/-- What is told about the heap, if it comes to an end. -/
def ofHeap? {α : Type} (f : Heap → Option α) : Step α :=
  fun session => (f session.heap).map (·, session)

/-- A new object with one property. -/
def record (key : String) (value : Value) : Step Value :=
  fun ⟨⟨heap, depth⟩, scope⟩ =>
    let (ref, heap) := heap.alloc .object (Dict.ofList [(key, value)])
    some (.object ref, ⟨⟨heap, depth⟩, scope⟩)

end Step

/-- The message of a raised value: an error has one, others are shown. -/
def Heap.errorMessage (heap : Heap) : Value → String
  | .error ref => (heap.get ref).message
  | value => heap.inspect value

/-- The script language, with so many levels of nested calls. -/
def evaluator (levels : Nat) : Evaluator Step Value where
  evaluate := Step.evaluate levels
  settle := Step.settle levels
  property := Step.property
  record := Step.record
  text s := pure (.string s)
  display value := Step.ofHeap? (·.text? value)
  errorMessage raised := Step.ofHeap? fun heap => some (heap.errorMessage raised)
  deepEquals a b := Step.ofHeap? fun heap => some (heap.deepEquals a b)
  inspect value := Step.ofHeap? fun heap => some (heap.inspect value)

end Doctest.Script
