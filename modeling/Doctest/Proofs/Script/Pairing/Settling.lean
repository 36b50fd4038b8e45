import Doctest.Proofs.Script.Pairing.Itself
import Doctest.Script.Settle

/-!
# Settling alongside itself

Settling looks at promises and gives them outcomes, so it goes alongside itself only where machines
that are the same have the same promises and stay the same when those are changed.
-/

namespace Doctest.Script.Pairing

/-- What settling relies on. -/
structure Settles (p : Pairing) : Prop extends p.Lawful where
  promise : ∀ {m n : Machine}, p.same m n → ∀ ref : Ref .promise, m.heap.get ref = n.heap.get ref
  put : ∀ {m n : Machine}, p.same m n → ∀ (ref : Ref .promise) (state : PromiseState),
    p.same ⟨m.heap.modify ref fun _ => state, m.depth⟩ ⟨n.heap.modify ref fun _ => state, n.depth⟩
  stuck : ∀ m, p.stuck m

variable {p : Pairing} {invoke invoke' : Invoke}

theorem put (hp : p.Settles) (ref : Ref .promise) (state : PromiseState) :
    p.Keeps (Eval.change ref fun _ => state) :=
  fun _ _ hsame => .inr ⟨rfl, hp.put hsame ref state, nofun⟩

theorem take (hp : p.Settles) (ref : Ref .promise) :
    p.Follows ((Settler.calling invoke).take ref) ((Settler.calling invoke').take ref) := by
  refine bind (ofHeap fun _ _ hsame => hp.promise hsame ref) fun state => ?_
  cases state with
  | fulfilled | rejected => exact pure _
  | pending reaction => exact bind (put hp ref _) fun _ => pure _

section

variable {settle settle' : Ref .promise → Eval Outcome}
  (hsettle : ∀ ref, p.Follows (settle ref) (settle' ref))
include hsettle

theorem settleValue (value : Value) :
    p.Follows (Script.settleValue settle value) (Script.settleValue settle' value) := by
  unfold Script.settleValue
  split
  · exact hsettle _
  · exact pure _

theorem settleItems (items : List Value) :
    p.Follows (Script.settleItems settle items) (Script.settleItems settle' items) := by
  induction items with
  | nil => exact pure _
  | cons item rest ih =>
    refine bind (settleValue hsettle item) fun found => ?_
    cases found with
    | error reason => exact pure _
    | ok value => exact bind ih fun _ => pure _

variable {handle handle' : Value → Value → Eval Outcome}
  (hhandle : ∀ handler value, p.Follows (handle handler value) (handle' handler value))
include hhandle

theorem settleHandler (handler : Option Value) (value : Value) (otherwise : Outcome) :
    p.Follows (Script.settleHandler handle settle handler value otherwise)
      (Script.settleHandler handle' settle' handler value otherwise) := by
  cases handler with
  | none => exact pure _
  | some handler =>
    refine bind (hhandle handler value) fun found => ?_
    cases found with
    | ok result => exact settleValue hsettle result
    | error reason => exact pure _

theorem react (hp : p.Settles) (reaction : Reaction) :
    p.Follows (Script.react handle settle reaction) (Script.react handle' settle' reaction) := by
  cases reaction with
  | running | unresolved => exact bind (newError hp.toLawful _) fun _ => pure _
  | adopt source => exact hsettle source
  | andThen source onFulfilled onRejected =>
    refine bind (hsettle source) fun found => ?_
    cases found with
    | ok value => exact settleHandler hsettle hhandle _ _ _
    | error reason => exact settleHandler hsettle hhandle _ _ _
  | all items =>
    refine bind (settleItems hsettle items) fun found => ?_
    cases found with
    | ok values => exact bind (newArray hp.toLawful _) fun _ => pure _
    | error reason => exact pure _

end

theorem settlePromise (hp : p.Settles) (hcalls : p.Calls invoke invoke') (levels : Nat)
    (ref : Ref .promise) :
    p.Follows (settlePromise (Settler.calling invoke) levels ref)
      (settlePromise (Settler.calling invoke') levels ref) := by
  induction levels generalizing ref with
  | zero => exact fun _ _ hsame => .error hsame (hp.stuck _)
  | succ levels ih =>
    refine bind (take hp ref) fun taken => ?_
    cases taken with
    | error outcome => exact pure _
    | ok reaction =>
      have hhandle (handler value : Value) := outcome (hcalls handler [value])
      exact bind (react ih hhandle hp reaction) fun _ => bind (put hp ref _) fun _ => pure _

theorem settle (hp : p.Settles) (hcalls : p.Calls invoke invoke') (levels : Nat) (value : Value) :
    p.Follows (settle invoke levels value) (settle invoke' levels value) :=
  settleValue (settlePromise hp hcalls levels) value

/-- On the same machine twice, where it may always be that neither evaluation goes on. -/
theorem itself_settles {holds : Machine → Prop} {cuts : Prop} (hholds : Machine.Lasting holds)
    (hput : ∀ {m : Machine}, holds m → ∀ (ref : Ref .promise) (state : PromiseState),
      holds ⟨m.heap.modify ref fun _ => state, m.depth⟩) :
    (itself holds cuts fun _ => True).Settles where
  toLawful := itself_lawful hholds fun _ _ => trivial
  promise := by
    rintro m _ ⟨rfl, -⟩ ref
    rfl
  put := by
    rintro m _ ⟨rfl, hm⟩ ref state
    exact ⟨rfl, hput hm ref state⟩
  stuck _ := trivial

end Doctest.Script.Pairing
