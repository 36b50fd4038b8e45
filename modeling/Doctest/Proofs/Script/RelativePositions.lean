import Doctest.Proofs.Number.Signs
import Doctest.Proofs.Script.Keeping.Evaluation
import Doctest.Proofs.Script.Making

/-!
# Relative positions

The methods of arrays and strings take numbers for positions: negative ones count from the end, and
what is beyond an end is cut off there. So a number parts an array into what is before its position
and what is behind, and searching from the position is searching what is behind.
-/

namespace Doctest

theorem Text.slice_length {α : Type} (n : Nat) (items : List α) :
    Text.slice n items.length items = items.drop n :=
  List.take_of_length_le (by rw [List.length_drop])

namespace Script

open Library

variable {x j k : Float} {length : Nat} {items front back : List Value} {a value : Value}
  {start : Machine} {levels : Nat}

/-! ### Positions -/

/-- The position of a number in something with a length: the number without its fraction, which
counts from the end if it is negative, and is cut off at the ends. What is no number stands for the
front. -/
def IsPositionOf (x : Float) (length position : Nat) : Prop :=
  match Number.truncated? x with
  | some n => position = if n < 0 then (length + n).toNat else min n.toNat length
  | none => position = if 0.0 < x then length else 0

theorem isPositionOf_positionOfNumber (x : Float) (length : Nat) :
    IsPositionOf x length (positionOfNumber x length) := by
  unfold IsPositionOf Number.truncated? positionOfNumber
  cases hparts : Number.Binary.ofFloat x with
  | nan =>
    obtain rfl : x = 0.0 / 0.0 := Number.ofFloat_injective (hparts.trans (by decide +kernel))
    exact (if_neg (by decide +kernel)).symm
  | infinite negative =>
    cases negative with
    | true =>
      obtain rfl : x = -1.0 / 0.0 := Number.ofFloat_injective (hparts.trans (by decide +kernel))
      exact (if_neg (by decide +kernel)).symm
    | false =>
      obtain rfl : x = 1.0 / 0.0 := Number.ofFloat_injective (hparts.trans (by decide +kernel))
      exact (if_pos (by decide +kernel)).symm
  | finite negative mantissa exponent =>
    dsimp only
    generalize Number.wholePart mantissa exponent = size
    cases negative with
    | true =>
      rw [if_pos rfl, Bool.true_and]
      by_cases hzero : size = 0
      · subst hzero
        rfl
      · rw [if_pos (by simpa using hzero), if_pos (by omega)]
        omega
    | false => exact (if_neg (Int.not_lt.mpr (Int.natCast_nonneg size))).symm

theorem IsPositionOf.le {position : Nat} (h : IsPositionOf x length position) :
    position ≤ length := by
  unfold IsPositionOf at h
  split at h <;> split at h <;> omega

theorem positionOfNumber_zero (length : Nat) : positionOfNumber 0.0 length = 0 := by
  have hwhole : Number.truncated? 0.0 = some 0 := by decide +kernel
  have hzero := isPositionOf_positionOfNumber 0.0 length
  rw [IsPositionOf, hwhole] at hzero
  exact hzero.trans (Nat.zero_min length)

/-! ### Calls of methods -/

/-- Reads a method of a value and calls it, as scripts do in `target.name(args)`. -/
def Eval.callMethod (invoke : Invoke) (target : Value) (name : String) (args : List Value) :
    Eval Value := do
  invoke (← Eval.property target name) args

/-- That is what the call of a member comes to, where reading the arguments has no effects. -/
theorem evalExpr_call_member {invoke : Invoke} {scope : Scope} {target : Expr} {args : List Expr}
    {values : List Value} {middle : Machine} {name : String} (s₁ s₂ : Span)
    (htarget : evalExpr invoke scope target start = (.ok value, middle))
    (hargs : evalExprs invoke scope args = pure values)
    (hmethod : ∀ function last, Eval.property value name middle = (.ok function, last) →
      function.isCallable = true) :
    evalExpr invoke scope (.call (.member target name s₁) args s₂) start =
      Eval.callMethod invoke value name values middle := by
  rw [evalExpr, Eval.bind_apply, evalExpr, Eval.bind_apply, htarget, Eval.callMethod,
    Eval.bind_apply, hargs]
  dsimp only
  rcases hread : Eval.property value name middle with ⟨signal | function, last⟩
  · rfl
  · dsimp only
    rw [pure_bind, if_pos (hmethod function last hread)]

/-- A value is an array that is there and has some items. -/
def Heap.IsArrayOf (heap : Heap) (items : List Value) (value : Value) : Prop :=
  ∃ ref : Ref .array, value = .array ref ∧ ref.index < heap.count .array ∧
    (heap.get ref).toList = items

theorem Heap.IsArrayOf.mono {heap later : Heap} (h : heap.IsArrayOf items value)
    (hext : heap.Extends later) : later.IsArrayOf items value := by
  obtain ⟨ref, rfl, hlt, hitems⟩ := h
  exact ⟨ref, rfl, Nat.lt_of_lt_of_le hlt (hext.grows _), by rw [hext.get_eq ref hlt, hitems]⟩

/-- What is given for the index of a value in items, searched from a position on. -/
def foundFrom (position : Nat) (items : List Value) (x : Value) : Value :=
  match (items.drop position).findIdx? (·.strictEquals x) with
  | some index => numberOfNat (position + index)
  | none => .number (-1.0)

/-- A method that is built in is called after a cell was made for it. -/
theorem Eval.callMethod_builtin {target : Value} {name : String} {function : Builtin}
    (hread : Eval.property target name = Eval.newCallable (.builtin function)) (levels : Nat)
    (args : List Value) (start : Machine) :
    ∃ begun : Machine, start.heap.Extends begun.heap ∧ begun.depth = start.depth ∧
      (∀ ref : Ref .array, begun.heap.get ref = start.heap.get ref) ∧
      Eval.callMethod (invoke (levels + 1)) target name args start =
        Library.call (invoke levels) function args begun := by
  let callable := Callable.builtin function
  have hget : (start.heap.alloc .callable callable).2.get (start.heap.alloc .callable callable).1 =
      callable := by
    rw [Heap.alloc_fst, Heap.get_alloc, if_pos rfl]
  refine ⟨⟨(start.heap.alloc .callable callable).2, start.depth⟩, start.heap.extends_alloc _, rfl,
    fun ref => start.heap.get_alloc_of_ne _ ref (by decide), ?_⟩
  rw [callMethod, hread]
  exact @invoke_builtin levels _ _ ⟨_, start.depth⟩ hget args

namespace Eval.Makes

variable {result : Heap → Value → Prop} {args : List Value}

/-- To call a method only makes a cell for it before. -/
theorem callBuiltin {target : Value} {name : String} {function : Builtin}
    (hread : Eval.property target name = Eval.newCallable (.builtin function))
    (h : ∀ middle, start.heap.Extends middle.heap →
      Makes result middle (Library.call (Script.invoke levels) function args)) :
    Makes result start (callMethod (Script.invoke (levels + 1)) target name args) := by
  obtain ⟨begun, hextends, hdepth, -, hcall⟩ := callMethod_builtin hread levels args start
  obtain ⟨value, last, hrun, hextends', hdepth', hmade⟩ := h begun hextends
  exact ⟨value, last, hcall.trans hrun, hextends.trans hextends', hdepth'.trans hdepth, hmade⟩

theorem callArrayMethod (method : ArrayMethod) (ha : start.heap.IsArrayOf items a)
    (h : ∀ (ref : Ref .array) (middle : Machine), (middle.heap.get ref).toList = items →
      start.heap.Extends middle.heap →
      Makes result middle (Library.callArrayMethod (Script.invoke levels) ref method args)) :
    Makes result start (callMethod (Script.invoke (levels + 1)) a method.name args) := by
  obtain ⟨ref, rfl, hlt, hitems⟩ := ha
  have hread : Eval.property (.array ref) method.name =
      Eval.newCallable (.builtin (.arrayMethod ref method)) := by cases method <;> rfl
  refine callBuiltin hread fun middle hext => h ref middle ?_ hext
  rw [hext.get_eq ref hlt, hitems]

theorem callStringMethod {s : String} (method : StringMethod)
    (h : ∀ middle, Makes result middle (Library.callStringMethod s method args)) :
    Makes result start (callMethod (Script.invoke (levels + 1)) (.string s) method.name args) := by
  have hread : Eval.property (.string s) method.name =
      Eval.newCallable (.builtin (.stringMethod s method)) := by cases method <;> rfl
  exact callBuiltin hread fun middle _ => h middle

theorem arrayOf (values : Array Value) :
    Makes (fun heap => heap.IsArrayOf values.toList) start (Eval.newArray values) := by
  refine (newArrayOf values).mono ?_
  rintro last - value ⟨ref, rfl, hlt, rfl⟩
  exact ⟨ref, rfl, hlt, rfl⟩

/-- The items from one position up to another one. -/
theorem slice (ha : start.heap.IsArrayOf items a) (j k : Float) :
    Makes (fun heap => heap.IsArrayOf (Text.slice (positionOfNumber j items.length)
      (positionOfNumber k items.length) items)) start
      (callMethod (Script.invoke (levels + 1)) a "slice" [.number j, .number k]) := by
  refine callArrayMethod .slice ha ?_
  rintro ref middle rfl -
  exact arrayOf _

/-- The items from a position on. -/
theorem sliceFrom (ha : start.heap.IsArrayOf items a) (k : Float) :
    Makes (fun heap => heap.IsArrayOf (items.drop (positionOfNumber k items.length))) start
      (callMethod (Script.invoke (levels + 1)) a "slice" [.number k]) := by
  refine callArrayMethod .slice ha ?_
  rintro ref middle rfl -
  rw [← Text.slice_length]
  exact arrayOf _

theorem concat {others : List Value} {other : Value} (ha : start.heap.IsArrayOf items a)
    (hother : start.heap.IsArrayOf others other) :
    Makes (fun heap => heap.IsArrayOf (items ++ others)) start
      (callMethod (Script.invoke (levels + 1)) a "concat" [other]) := by
  refine callArrayMethod .concat ha ?_
  rintro ref middle rfl hext
  obtain ⟨ref', rfl, -, rfl⟩ := hother.mono hext
  rw [← Array.toList_append]
  exact arrayOf _

/-- Whether a value is among the items from a position on, or among all if it is left out. -/
theorem includes (ha : start.heap.IsArrayOf items a) (x : Value) (k? : Option Float) :
    Makes (fun _ => (· = .bool ((items.drop (k?.elim 0 (positionOfNumber · items.length))).any
      (·.sameValueZero x)))) start
      (callMethod (Script.invoke (levels + 1)) a "includes" (x :: k?.toList.map .number)) := by
  refine callArrayMethod .includes ha ?_
  rintro ref middle rfl -
  cases k? <;> exact ⟨_, middle, rfl, .refl _, rfl, rfl⟩

/-- Where a value is among the items from a position on, or among all if it is left out. -/
theorem indexOf (ha : start.heap.IsArrayOf items a) (x : Value) (k? : Option Float) :
    Makes (fun _ => (· = foundFrom (k?.elim 0 (positionOfNumber · items.length)) items x)) start
      (callMethod (Script.invoke (levels + 1)) a "indexOf" (x :: k?.toList.map .number)) := by
  refine callArrayMethod .indexOf ha ?_
  rintro ref middle rfl -
  generalize hposition : k?.elim 0 (positionOfNumber · (middle.heap.get ref).toList.length) = n
  have hrun : Library.callArrayMethod (Script.invoke levels) ref .indexOf
      (x :: k?.toList.map .number) middle =
        (match ((middle.heap.get ref).toList.drop n).findIdx? (·.strictEquals x) with
          | some index => Pure.pure (numberOfNat (n + index))
          | none => Pure.pure (.number (-1.0)) : Eval Value) middle := by
    subst hposition
    cases k? <;> rfl
  refine ⟨_, middle, ?_, .refl _, rfl, rfl⟩
  rw [hrun, foundFrom]
  cases ((middle.heap.get ref).toList.drop n).findIdx? (·.strictEquals x) <;> rfl

end Eval.Makes

/-! ### Items at positions -/

/-- A list has the items at the positions from one up to, but without, another one. All of these
positions are within the items. -/
structure IsSlice (first last : Nat) (items part : List Value) : Prop where
  length_eq : part.length = last - first
  get_eq : ∀ i, first + i < last → ∃ item, items[first + i]? = some item ∧ part[i]? = some item

theorem isSlice_slice {first last : Nat} (hlast : last ≤ items.length) :
    IsSlice first last items (Text.slice first last items) where
  length_eq := by
    rw [Text.slice, List.length_take, List.length_drop]
    omega
  get_eq i hi := by
    refine ⟨items[first + i], List.getElem?_eq_getElem _, ?_⟩
    rw [Text.slice, List.getElem?_take_of_lt (by omega), List.getElem?_drop,
      List.getElem?_eq_getElem]

/-- The first position, from some position on, of an item that is `===` to a value. -/
structure IsFirstFrom (position : Nat) (items : List Value) (x : Value) (found : Nat) : Prop where
  le : position ≤ found
  equal : ∃ item, items[found]? = some item ∧ item.strictEquals x = true
  least : ∀ i item, position ≤ i → items[i]? = some item → item.strictEquals x = true → found ≤ i

theorem numberOfNat_ne (n : Nat) : numberOfNat n ≠ .number (-1.0) := fun h =>
  Number.ofNat_ne_minus_one n (Value.number.inj h)

theorem isFirstFrom_append {x : Value} {i : Nat} (front : List Value)
    (h : back.findIdx? (·.strictEquals x) = some i) :
    IsFirstFrom front.length (front ++ back) x (front.length + i) := by
  obtain ⟨hlt, hequal, hbefore⟩ := List.findIdx?_eq_some_iff_getElem.mp h
  refine ⟨Nat.le_add_right _ _, ⟨back[i], ?_, hequal⟩, fun n item hn hitem hsame => ?_⟩
  · rw [List.getElem?_append_right (Nat.le_add_right _ _), Nat.add_sub_cancel_left,
      List.getElem?_eq_getElem hlt]
  · rw [List.getElem?_append_right hn] at hitem
    obtain ⟨hn', rfl⟩ := List.getElem?_eq_some_iff.mp hitem
    by_contra hless
    exact hbefore (n - front.length) (by omega) hsame

/-- What is found from a position on is what is found behind it, counted from there. -/
theorem foundFrom_append (front back : List Value) (x : Value) :
    (foundFrom front.length (front ++ back) x = .number (-1.0) ↔
        foundFrom 0 back x = .number (-1.0)) ∧
      (foundFrom front.length (front ++ back) x = .number (-1.0) ↔
        ∀ item ∈ back, item.strictEquals x = false) ∧
      (foundFrom front.length (front ++ back) x ≠ .number (-1.0) → ∃ i,
        foundFrom 0 back x = numberOfNat i ∧
          foundFrom front.length (front ++ back) x = numberOfNat (front.length + i) ∧
          IsFirstFrom front.length (front ++ back) x (front.length + i)) := by
  unfold foundFrom
  rw [List.drop_left, List.drop_zero]
  cases hfound : back.findIdx? (·.strictEquals x) with
  | none =>
    have hnone : ∀ item ∈ back, item.strictEquals x = false := by simpa using hfound
    exact ⟨Iff.rfl, iff_of_true rfl hnone, fun hne => absurd rfl hne⟩
  | some i =>
    have hfirst := isFirstFrom_append front hfound
    have hsome : ¬ ∀ item ∈ back, item.strictEquals x = false := by
      obtain ⟨hlt, hequal, -⟩ := List.findIdx?_eq_some_iff_getElem.mp hfound
      exact fun hnone =>
        Bool.false_ne_true ((hnone _ (List.getElem_mem hlt)).symm.trans hequal)
    have hbehind : numberOfNat (0 + i) = numberOfNat i := congrArg numberOfNat (Nat.zero_add i)
    exact ⟨iff_of_false (numberOfNat_ne _) (numberOfNat_ne _),
      iff_of_false (numberOfNat_ne _) hsome, fun _ => ⟨i, hbehind, rfl, hfirst⟩⟩

/-! ### Arrays -/

open Eval (Makes)

/-- How a number `k` parts the items of an array `a` into those before its position and those
behind, where methods of the array are called with it. -/
structure PartsArray (call : Value → String → List Value → Eval Value) (start : Machine)
    (front back : List Value) (a : Value) (k : Float) : Prop where
  position : IsPositionOf k (front ++ back).length front.length
  before : Makes (fun heap => heap.IsArrayOf front) start
    (call a "slice" [.number 0.0, .number k])
  behind : Makes (fun heap => heap.IsArrayOf back) start (call a "slice" [.number k])
  together : Makes (fun heap => heap.IsArrayOf (front ++ back)) start (do
    let first ← call a "slice" [.number 0.0, .number k]
    let rest ← call a "slice" [.number k]
    call first "concat" [rest])
  includes : ∀ x, ∃ found,
    Makes (fun _ => (· = .bool found)) start (call a "includes" [x, .number k]) ∧
      Makes (fun _ => (· = .bool found)) start (do
        call (← call a "slice" [.number k]) "includes" [x])
  indexOf : ∀ x, ∃ found foundBehind,
    Makes (fun _ => (· = found)) start (call a "indexOf" [x, .number k]) ∧
      Makes (fun _ => (· = foundBehind)) start (do
        call (← call a "slice" [.number k]) "indexOf" [x]) ∧
      (found = .number (-1.0) ↔ foundBehind = .number (-1.0)) ∧
      (found = .number (-1.0) ↔ ∀ item ∈ back, item.strictEquals x = false) ∧
      (found ≠ .number (-1.0) → ∃ i, foundBehind = numberOfNat i ∧
        found = numberOfNat (front.length + i) ∧
        IsFirstFrom front.length (front ++ back) x (front.length + i))

/-- Where items or characters are parted by a number. -/
theorem exists_parts {α : Type} (items : List α) (k : Float) :
    ∃ front back, items = front ++ back ∧ positionOfNumber k items.length = front.length ∧
      IsPositionOf k items.length front.length := by
  have hposition := isPositionOf_positionOfNumber k items.length
  have hlength := List.length_take_of_le hposition.le
  exact ⟨_, _, (List.take_append_drop _ items).symm, hlength.symm, by rwa [hlength]⟩

theorem exists_partsArray (ha : start.heap.IsArrayOf items a) (k : Float) :
    ∃ front back, items = front ++ back ∧
      PartsArray (Eval.callMethod (invoke (levels + 1))) start front back a k := by
  obtain ⟨front, back, rfl, hn, hposition⟩ := exists_parts items k
  have hbefore {start : Machine} (ha : start.heap.IsArrayOf (front ++ back) a) :
      Makes (fun heap => heap.IsArrayOf front) start
        (Eval.callMethod (invoke (levels + 1)) a "slice" [.number 0.0, .number k]) := by
    refine (Makes.slice ha 0.0 k).mono fun last _ value hvalue => ?_
    rwa [hn, positionOfNumber_zero, Text.slice, List.drop_zero, Nat.sub_zero, List.take_left]
      at hvalue
  have hbehind {start : Machine} (ha : start.heap.IsArrayOf (front ++ back) a) :
      Makes (fun heap => heap.IsArrayOf back) start
        (Eval.callMethod (invoke (levels + 1)) a "slice" [.number k]) := by
    refine (Makes.sliceFrom ha k).mono fun last _ value hvalue => ?_
    rwa [hn, List.drop_left] at hvalue
  refine ⟨front, back, rfl, hposition, hbefore ha, hbehind ha, ?_, fun x => ?_, fun x => ?_⟩
  · refine (hbefore ha).bind fun first middle hext hfirst => ?_
    refine (hbehind (ha.mono hext)).bind fun rest later hext' hrest => ?_
    exact Makes.concat (hfirst.mono hext') hrest
  · refine ⟨back.any (·.sameValueZero x), ?_,
      (hbehind ha).bind fun _ _ _ hrest => Makes.includes hrest x none⟩
    refine (Makes.includes ha x (some k)).mono fun last _ value hvalue => ?_
    rwa [Option.elim_some, hn, List.drop_left] at hvalue
  · refine ⟨foundFrom front.length (front ++ back) x, foundFrom 0 back x, ?_,
      (hbehind ha).bind fun _ _ _ hrest => Makes.indexOf hrest x none,
      foundFrom_append front back x⟩
    refine (Makes.indexOf ha x (some k)).mono fun last _ value hvalue => ?_
    rwa [Option.elim_some, hn] at hvalue

/-! ### Strings -/

theorem Heap.add_string (heap : Heap) (s t : String) :
    heap.add (.string s) (.string t) = some (.string (s ++ t)) := by
  have htext (u : String) : heap.text? (.string u) = some u :=
    Heap.text?_of_not_array fun _ => Value.noConfusion
  change (do return Value.string ((← heap.text? (.string s)) ++ (← heap.text? (.string t)))) = _
  rw [htext, htext]
  rfl

/-- How a number parts the characters of a string. -/
structure PartsText (call : Value → String → List Value → Eval Value) (start : Machine)
    (front back : List Char) (s : String) (k : Float) : Prop where
  position : IsPositionOf k (front ++ back).length front.length
  before : Makes (fun _ => (· = .string (String.ofList front))) start
    (call (.string s) "slice" [.number 0.0, .number k])
  behind : Makes (fun _ => (· = .string (String.ofList back))) start
    (call (.string s) "slice" [.number k])
  together : Makes (fun _ => (· = .string s)) start (do
    let first ← call (.string s) "slice" [.number 0.0, .number k]
    let rest ← call (.string s) "slice" [.number k]
    Eval.ofHeap? (·.operate .add first rest))

theorem exists_partsText (s : String) (k : Float) (start : Machine) :
    ∃ front back, s.toList = front ++ back ∧
      PartsText (Eval.callMethod (invoke (levels + 1))) start front back s k := by
  obtain ⟨front, back, hs, hn, hposition⟩ := exists_parts s.toList k
  rw [hs] at hn hposition
  have hbefore (start : Machine) : Makes (fun _ => (· = .string (String.ofList front))) start
      (Eval.callMethod (invoke (levels + 1)) (.string s) "slice" [.number 0.0, .number k]) := by
    refine .callStringMethod .slice fun middle => ⟨_, middle, rfl, .refl _, rfl, ?_⟩
    change Value.string (String.ofList (Text.slice (positionOfNumber 0.0 s.toList.length)
      (positionOfNumber k s.toList.length) s.toList)) = _
    rw [positionOfNumber_zero, hs, hn, Text.slice, List.drop_zero, Nat.sub_zero, List.take_left]
  have hbehind (start : Machine) : Makes (fun _ => (· = .string (String.ofList back))) start
      (Eval.callMethod (invoke (levels + 1)) (.string s) "slice" [.number k]) := by
    refine .callStringMethod .slice fun middle => ⟨_, middle, rfl, .refl _, rfl, ?_⟩
    change Value.string (String.ofList (Text.slice (positionOfNumber k s.toList.length)
      s.toList.length s.toList)) = _
    rw [hs, hn, Text.slice_length, List.drop_left]
  refine ⟨front, back, hs, hposition, hbefore start, hbehind start, ?_⟩
  refine (hbefore start).bind ?_
  rintro _ middle - rfl
  refine (hbehind middle).bind ?_
  rintro _ later - rfl
  have hjoined : String.ofList front ++ String.ofList back = s := by
    rw [← String.ofList_append, ← hs, String.ofList_toList]
  exact .ofHeap? (later.heap.add_string _ _) (congrArg Value.string hjoined)

/-! ### Main result -/

/-- **Numbers for positions.** A number parts every array into the items before its position and
those behind: they are what slicing up to it and from it on give, they are the array when they are
put together, and searching from the number is searching what is behind. Slicing between two numbers
gives the items at the positions from the first up to the second. A string is parted likewise.
No position is beyond the end. -/
theorem numbers_part_arrays_and_strings (levels : Nat) (ha : start.heap.IsArrayOf items a)
    (s : String) (j k : Float) :
    (∃ front back, items = front ++ back ∧
      PartsArray (Eval.callMethod (invoke (levels + 1))) start front back a k) ∧
      (∃ first last part, IsPositionOf j items.length first ∧ IsPositionOf k items.length last ∧
        first ≤ items.length ∧ last ≤ items.length ∧ IsSlice first last items part ∧
        Makes (fun heap => heap.IsArrayOf part) start
          (Eval.callMethod (invoke (levels + 1)) a "slice" [.number j, .number k])) ∧
      ∃ front back, s.toList = front ++ back ∧
        PartsText (Eval.callMethod (invoke (levels + 1))) start front back s k := by
  have hfirst := isPositionOf_positionOfNumber j items.length
  have hlast := isPositionOf_positionOfNumber k items.length
  exact ⟨exists_partsArray ha k, ⟨_, _, _, hfirst, hlast, hfirst.le, hlast.le,
    isSlice_slice hlast.le, Makes.slice ha j k⟩, exists_partsText s k start⟩

/-- The last of three items is behind minus one. -/
theorem minus_one_parts_three :
    let items : List Value := [.bool true, .null, .string "x"]
    let start : Machine := ⟨(Heap.empty.alloc .array items.toArray).2, 0⟩
    ∃ a : Value, PartsArray (Eval.callMethod (invoke 1)) start [.bool true, .null] [.string "x"] a
      (-1.0) := by
  intro items start
  have ha : start.heap.IsArrayOf items (.array ⟨0⟩) := ⟨⟨0⟩, rfl, by decide, rfl⟩
  obtain ⟨⟨front, back, happend, hparts⟩, -⟩ :=
    numbers_part_arrays_and_strings 0 ha "" (-1.0) (-1.0)
  have hlength : front.length = 2 := by
    have hwhole : Number.truncated? (-1.0) = some (-1) := by decide +kernel
    have hposition := hparts.position
    rw [← happend, IsPositionOf, hwhole] at hposition
    exact hposition
  have hitems : [.bool true, .null] ++ [.string "x"] = front ++ back := happend
  obtain ⟨rfl, rfl⟩ := List.append_inj hitems hlength.symm
  exact ⟨_, hparts⟩

end Script

end Doctest
