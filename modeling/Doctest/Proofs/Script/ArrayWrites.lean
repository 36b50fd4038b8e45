import Doctest.Proofs.Number.Integers
import Doctest.Proofs.Script.Listing

/-!
# Writing to arrays

What is written to an array is an item, its length or nothing, by the key. An item far behind the
others fills the array up, and a length fills it up or cuts it off. If the array would become too
long, an error is raised and the array stays what it was. In no case is anything else changed.
-/

namespace Doctest.Script

open Number (IsInteger)

variable {items : Array Value} {i n : Nat} {value : Value} {x : Float} {ref : Ref .array}
  {start last : Machine}

/-! ### Items of arrays -/

/-- What the items of an array become by writing one of them. -/
structure ItemWritten (items : Array Value) (i : Nat) (value : Value) (after : Array Value) :
    Prop where
  size_eq : after.size = max items.size (i + 1)
  written : after[i]? = some value
  kept : ∀ j < items.size, j ≠ i → after[j]? = items[j]?
  filled : ∀ j < i, items.size ≤ j → after[j]? = some .undefined

/-- What the items of an array become by writing its length. -/
structure LengthWritten (items : Array Value) (n : Nat) (after : Array Value) : Prop where
  size_eq : after.size = n
  kept : ∀ j < n, j < items.size → after[j]? = items[j]?
  filled : ∀ j < n, items.size ≤ j → after[j]? = some .undefined

theorem lengthWritten_resized (items : Array Value) (n : Nat) :
    LengthWritten items n (resized items n) := by
  unfold resized
  split
  case isTrue hlt =>
    constructor
    · rw [Array.take_eq_extract, Array.size_extract]
      omega
    · intro j hj _
      rw [Array.take_eq_extract, Array.getElem?_extract, if_pos (by omega), Nat.zero_add]
    · intro j hj hle
      omega
  case isFalse hge =>
    constructor
    · rw [Array.size_append, Array.size_replicate]
      omega
    · intro j _ hlt
      rw [Array.getElem?_append_left hlt]
    · intro j hj hle
      rw [Array.getElem?_append_right hle, Array.getElem?_replicate, if_pos (by omega)]

theorem itemWritten_set (hi : i < items.size) :
    ItemWritten items i value (items.setIfInBounds i value) where
  size_eq := by
    rw [Array.size_setIfInBounds]
    omega
  written := Array.getElem?_setIfInBounds_self_of_lt hi
  kept _ _ hne := Array.getElem?_setIfInBounds_ne hne.symm
  filled j hj hle := by omega

/-- An item behind the others is written by filling the array up to it. -/
theorem itemWritten_push (hi : items.size ≤ i) :
    ItemWritten items i value ((resized items i).push value) := by
  obtain ⟨hsize, hkept, hfilled⟩ := lengthWritten_resized items i
  have hbefore (j : Nat) (hj : j < i) :
      ((resized items i).push value)[j]? = (resized items i)[j]? := by
    rw [Array.getElem?_push, if_neg (by omega)]
  constructor
  · rw [Array.size_push, hsize]
    omega
  · rw [Array.getElem?_push, if_pos hsize.symm]
  · intro j hj _
    rw [hbefore j (by omega), hkept j (by omega) hj]
  · intro j hj hle
    rw [hbefore j hj, hfilled j hj hle]

/-- The lengths that numbers are for arrays are the integers that are not too great. -/
theorem lengthOfNumber?_eq_some_iff :
    lengthOfNumber? x = some n ↔ IsInteger x n ∧ n ≤ greatestLength := by
  unfold lengthOfNumber? IsInteger
  cases Number.isWhole x with
  | false => exact iff_of_false nofun fun h => Bool.false_ne_true h.1.1
  | true =>
    rw [if_pos rfl, eq_self, true_and]
    cases Number.truncated? x with
    | none => exact iff_of_false nofun fun h => nomatch h.1
    | some m =>
      cases m with
      | negSucc m => exact iff_of_false nofun fun h => nomatch Option.some.inj h.1
      | ofNat m =>
        dsimp only
        rw [Option.some.injEq, Int.ofNat_eq_natCast, Int.natCast_inj]
        split_ifs with hle
        · rw [Option.some.injEq]
          exact ⟨fun heq => ⟨heq, heq ▸ hle⟩, And.left⟩
        · exact iff_of_false nofun fun h => hle (h.1 ▸ h.2)

/-! ### Writes -/

/-- Two heaps have the same cells, and all but one hold the same. -/
structure Heap.SameBut (ref : Ref .array) (heap later : Heap) : Prop where
  count_eq : ∀ kind, later.count kind = heap.count kind
  get_eq : ∀ {kind : CellKind} (other : Ref kind), other.place ≠ ref.place →
    later.get other = heap.get other

namespace Eval

/-- An evaluation changes the items of an array and nothing else. -/
def WritesTo (ref : Ref .array) (result : Machine → Prop) (start : Machine) (x : Eval Unit) :
    Prop :=
  ∃ last, x start = (.ok (), last) ∧ last.depth = start.depth ∧
    start.heap.SameBut ref last.heap ∧ result last

/-- An evaluation raises a new error about a length and changes nothing. -/
def RefusesLength (start : Machine) (x : Eval Unit) : Prop :=
  ∃ (error : Ref .error) (last : Machine), x start = (.error (.raised (.error error)), last) ∧
    last.depth = start.depth ∧ start.heap.Extends last.heap ∧
    error.index = start.heap.count .error ∧
    last.heap.get error = ⟨"RangeError", "Invalid array length", Dict.empty⟩

theorem change_writesTo {result : Machine → Prop} (href : ref.index < start.heap.count .array)
    (f : Array Value → Array Value)
    (h : ∀ last : Machine, last.heap.get ref = f (start.heap.get ref) → result last) :
    WritesTo ref result start (change ref f) := by
  refine ⟨⟨start.heap.modify ref f, start.depth⟩, rfl, rfl, ⟨fun kind => ?_, ?_⟩, h _ ?_⟩
  · exact start.heap.count_modify ref f
  · exact fun other hne => start.heap.get_modify_of_place_ne ref f other hne
  · exact (start.heap.get_modify ref ref f).trans (if_pos ⟨rfl, href⟩)

theorem fail_refusesLength (start : Machine) : RefusesLength start (fail .arrayLength) := by
  let cell : Cell .error := ErrorObject.mk "RangeError" "Invalid array length" Dict.empty
  refine ⟨⟨start.heap.count .error⟩, ⟨(start.heap.alloc .error cell).2, start.depth⟩, rfl, rfl,
    start.heap.extends_alloc cell, rfl, ?_⟩
  rw [Heap.get_alloc, if_pos rfl]

end Eval

/-! ### Main result -/

open Eval (WritesTo RefusesLength)

/-- What writing a value to an array under a key does, by the key and for a length by the number of
the value. -/
structure WritesArray (write : String → Value → Eval Unit) (ref : Ref .array) (value : Value)
    (start : Machine) : Prop where
  item : ∀ i < 2 ^ 64, i < greatestLength ∨ i < (start.heap.get ref).size →
    WritesTo ref (fun last => ItemWritten (start.heap.get ref) i value (last.heap.get ref) ∧
      Eval.property (.array ref) (toString i) last = (.ok value, last)) start
      (write (toString i) value)
  beyond : ∀ i < 2 ^ 64, greatestLength ≤ i → (start.heap.get ref).size ≤ i →
    RefusesLength start (write (toString i) value)
  length : ∀ (x : Float) (n : Nat), start.heap.number? value = some x → IsInteger x n →
    n ≤ greatestLength →
    WritesTo ref (fun last => LengthWritten (start.heap.get ref) n (last.heap.get ref)) start
      (write "length" value)
  notLength : ∀ x, start.heap.number? value = some x →
    (∀ n : Nat, n ≤ greatestLength → ¬ IsInteger x n) → RefusesLength start (write "length" value)
  other : ∀ key, key ≠ "length" → (∀ i < 2 ^ 64, key ≠ toString i) →
    write key value start = (.ok (), start)

namespace Eval

theorem setItem_apply (ref : Ref .array) (i : Nat) (value : Value) (start : Machine) :
    setItem ref i value start =
      (if i < (start.heap.get ref).size then change ref (·.setIfInBounds i value)
        else if i < greatestLength then change ref fun items => (resized items i).push value
        else fail .arrayLength : Eval Unit) start :=
  rfl

theorem setProperty_index (hlt : i < 2 ^ 64) :
    setProperty (.array ref) (toString i) value = setItem ref i value := by
  have hlt' : i < Nat.pow 2 64 := hlt
  rw [setProperty, if_neg (ne_toString (by decide) i).symm, indexOfKey?_toString, if_pos hlt']

theorem setProperty_length (hx : start.heap.number? value = some x) :
    setProperty (.array ref) "length" value start = setLength ref x start := by
  rw [setProperty, if_pos rfl, bind_apply, number, ofHeap?_apply, hx]

end Eval

/-- That is what an assignment to a key comes to, where its parts have no effects. -/
theorem evalExpr_assign_index {invoke : Invoke} {scope : Scope} {target key right : Expr}
    {found name : Value} {text : String} (s₁ s₂ : Span)
    (htarget : evalExpr invoke scope target = pure found)
    (hkey : evalExpr invoke scope key = pure name) (htext : Eval.text name = pure text)
    (hright : evalExpr invoke scope right = pure value) :
    evalExpr invoke scope (.assign (.index target key s₁) none right s₂) =
      (do Eval.setProperty found text value; return value) := by
  rw [evalExpr, htarget, hkey, pure_bind, pure_bind, htext, pure_bind, Eval.assignProperty,
    Eval.assigned, hright, pure_bind]

end Doctest.Script
