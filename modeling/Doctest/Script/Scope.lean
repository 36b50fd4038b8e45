import Doctest.Script.Eval

/-!
# Scopes

Names are looked up through a chain of frames, the innermost first.
-/

namespace Doctest.Script

/-- The first of some frames that binds a name, and what it binds the name to. -/
def Heap.binder? (heap : Heap) (name : String) :
    List (Ref .frame) → Option (Ref .frame × Binding)
  | [] => none
  | frame :: rest =>
    match (heap.get frame).get? name with
    | some binding => some (frame, binding)
    | none => heap.binder? name rest

namespace Scope

/-- The frame that binds a name in a scope, and what it binds the name to. -/
def binder? (scope : Scope) (heap : Heap) (name : String) : Option (Ref .frame × Binding) :=
  heap.binder? name scope.chain

/-- The value of a name. -/
def get? (scope : Scope) (heap : Heap) (name : String) : Option Value :=
  (scope.binder? heap name).map (·.2.value)

/-- Whether a name has a value. -/
def has (scope : Scope) (heap : Heap) (name : String) : Bool :=
  (scope.binder? heap name).isSome

/-- The frame that new names of a scope go into. -/
def innermost (scope : Scope) : Ref .frame :=
  scope.inner.headD scope.outermost

/-- A scope with a new frame inside. -/
def nested (scope : Scope) : Eval Scope := do
  let frame ← Eval.alloc .frame Dict.empty
  return { scope with inner := frame :: scope.inner }

/-- Binds a name in the innermost frame, in the place of what the frame binds it to. -/
def define (scope : Scope) (name : String) (value : Value) (isMutable : Bool) : Eval Unit :=
  Eval.change scope.innermost (·.insert name ⟨value, isMutable⟩)

/-- Assigns to a name where it is bound. A name that is bound nowhere is bound in the outermost
frame. -/
def assign (scope : Scope) (name : String) (value : Value) : Eval Unit := do
  match ← Eval.ofHeap (scope.binder? · name) with
  | some (frame, binding) =>
    if binding.isMutable then Eval.change frame (·.insert name ⟨value, true⟩)
    else Eval.fail .constantAssignment
  | none => Eval.change scope.outermost (·.insert name ⟨value, true⟩)

/-- The value of a name, which has to have one. -/
def value (scope : Scope) (name : String) : Eval Value := do
  match ← Eval.ofHeap (scope.get? · name) with
  | some value => return value
  | none => Eval.fail (.unknownName name)

end Scope

end Doctest.Script
