import Doctest.Proofs.Script.Spans
import Doctest.Script.JsonText
import Doctest.Script.Operator
import Doctest.Script.Scope

/-!
# Heaps that differ in promises and spans only

Conversions, operators and names look at no promise and at no span, so they tell the same of two
heaps that differ in nothing else. A conversion may come to no end; operators come to none only if
one of their operands has no text.
-/

namespace Doctest.Script

namespace Heap

/-- Two heaps that differ in their promises only, of which they have the same number. -/
structure Beside (heap other : Heap) : Prop where
  get : ∀ {kind : CellKind} (ref : Ref kind), kind ≠ .promise → heap.get ref = other.get ref
  count : ∀ kind, heap.count kind = other.count kind

/-- Two heaps that differ in their promises, of which they have the same number, and where the
functions of the second one have other spans. -/
structure Resembles (f : Span → Span) (heap other : Heap) : Prop where
  get : ∀ {kind : CellKind} (ref : Ref kind), kind ≠ .promise →
    other.get ref = Cell.mapSpans f (heap.get ref)
  count : ∀ kind, heap.count kind = other.count kind

/-- Some conversion comes to no end: an array stands inside itself, or an error does. -/
def Endless (heap : Heap) : Prop :=
  (∃ value, heap.text? value = none) ∨ ∃ value, heap.json value = .error .endless

namespace Beside

variable {heap other : Heap}

theorem refl (heap : Heap) : heap.Beside heap :=
  ⟨fun _ _ => rfl, fun _ => rfl⟩

theorem resembles (h : heap.Beside other) : heap.Resembles id other :=
  ⟨fun ref hkind => by rw [Cell.mapSpans_id, h.get ref hkind], h.count⟩

/-! ### Cells -/

/-- The same new cell is found in both heaps, and what was there before elsewhere. -/
theorem get_alloc (h : heap.Beside other) {kind kind' : CellKind} (cell : Cell kind)
    (ref : Ref kind') :
    (heap.alloc kind cell).2.get ref = (other.alloc kind cell).2.get ref ∨
      ((heap.alloc kind cell).2.get ref = heap.get ref ∧
        (other.alloc kind cell).2.get ref = other.get ref) := by
  by_cases hplace : ref.place = ⟨kind, heap.count kind⟩
  · injection hplace with hkind hindex
    subst hkind
    have hindex' := hindex.trans (h.count _)
    left
    rw [Heap.get_alloc, Heap.get_alloc, if_pos hindex, if_pos hindex']
  · have hplace' : ref.place ≠ ⟨kind, other.count kind⟩ := h.count kind ▸ hplace
    right
    exact ⟨Heap.get_alloc_of_place_ne _ _ _ hplace, Heap.get_alloc_of_place_ne _ _ _ hplace'⟩

theorem alloc (h : heap.Beside other) {kind : CellKind} (cell : Cell kind) :
    (heap.alloc kind cell).2.Beside (other.alloc kind cell).2 where
  get ref hkind := by
    rcases h.get_alloc cell ref with heq | ⟨hfirst, hsecond⟩
    · exact heq
    · rw [hfirst, hsecond, h.get ref hkind]
  count kind' := by rw [Heap.count_alloc, Heap.count_alloc, h.count]

theorem modify (h : heap.Beside other) {kind : CellKind} (ref : Ref kind)
    (f : Cell kind → Cell kind) : (heap.modify ref f).Beside (other.modify ref f) where
  get {kind'} found hkind := by
    by_cases heq : kind' = kind
    · subst heq
      rw [Heap.get_modify, Heap.get_modify, h.get found hkind, h.count]
    · rw [Heap.get_modify_of_ne _ _ _ _ heq, Heap.get_modify_of_ne _ _ _ _ heq,
        h.get found hkind]
  count kind' := by rw [Heap.count_modify, Heap.count_modify, h.count]

end Beside

theorem resembles_mapSpans (f : Span → Span) (heap : Heap) : heap.Resembles f (heap.mapSpans f) :=
  ⟨fun ref _ => heap.get_mapSpans f ref, fun kind => (heap.count_mapSpans f kind).symm⟩

namespace Resembles

variable {f : Span → Span} {heap other : Heap}

/-- Cells that are neither promises nor functions are the same. -/
theorem get_eq (h : heap.Resembles f other) {kind : CellKind} (ref : Ref kind)
    (hkind : kind ≠ .promise ∧ kind ≠ .callable) : heap.get ref = other.get ref := by
  rw [h.get ref hkind.1, Cell.mapSpans_of_ne f hkind.2]

/-! ### Texts and numbers -/

theorem plainText (h : heap.Resembles f other) (value : Value) :
    heap.plainText value = other.plainText value := by
  cases value with
  | error ref => rw [Heap.plainText, Heap.plainText, h.get_eq ref (by decide)]
  | callable ref =>
    have htext : (other.get ref).text = (heap.get ref).text := by
      rw [h.get ref (by decide), Cell.mapSpans, Callable.text_mapSpans]
    rw [Heap.plainText, Heap.plainText, htext]
  | undefined | null | bool | number | string | array | object | promise => rfl

theorem textWithin (h : heap.Resembles f other) (levels : Nat) (value : Value) :
    Script.textWithin heap levels value = Script.textWithin other levels value := by
  induction levels generalizing value with
  | zero =>
    cases value with
    | array => rfl
    | _ => exact congrArg some (h.plainText _)
  | succ levels ih =>
    cases value with
    | array ref =>
      have hitem : (fun item : Value =>
            if item.isNullish then some "" else Script.textWithin heap levels item) =
          fun item => if item.isNullish then some "" else Script.textWithin other levels item :=
        funext fun item => by rw [ih]
      rw [Script.textWithin, Script.textWithin, hitem, h.get_eq ref (by decide)]
    | _ => exact congrArg some (h.plainText _)

theorem text? (h : heap.Resembles f other) (value : Value) :
    heap.text? value = other.text? value := by
  rw [Heap.text?, Heap.text?, h.count, h.textWithin]

theorem number? (h : heap.Resembles f other) (value : Value) :
    heap.number? value = other.number? value := by
  cases value with
  | array ref => rw [Heap.number?, Heap.number?, h.text?]
  | _ => rfl

theorem primitive? (h : heap.Resembles f other) (value : Value) :
    heap.primitive? value = other.primitive? value := by
  rw [Heap.primitive?, Heap.primitive?, h.text?]

/-! ### Operators -/

theorem arithmetic (h : heap.Resembles f other) (op : Float → Float → Float) (a b : Value) :
    heap.arithmetic op a b = other.arithmetic op a b := by
  rw [Heap.arithmetic, Heap.arithmetic, h.number?, h.number?]

theorem compare (h : heap.Resembles f other) (texts : String → String → Bool)
    (numbers : Float → Float → Bool) (a b : Value) :
    heap.compare texts numbers a b = other.compare texts numbers a b := by
  unfold Heap.compare
  split
  · rfl
  · rw [h.number?, h.number?]

theorem looseEquals? (h : heap.Resembles f other) (a b : Value) :
    heap.looseEquals? a b = other.looseEquals? a b := by
  rw [Heap.looseEquals?, Heap.looseEquals?, h.primitive?, h.primitive?]

theorem operate (h : heap.Resembles f other) (op : BinaryOp) (a b : Value) :
    heap.operate op a b = other.operate op a b := by
  cases op with
  | add =>
    rw [Heap.operate, Heap.operate, Heap.add, Heap.add, h.text?, h.text?, h.arithmetic]
  | sub | mul | div | rem | pow => exact h.arithmetic _ a b
  | looseEq | looseNe => rw [Heap.operate, Heap.operate, h.looseEquals?]
  | strictEq | strictNe => rfl
  | lt | le | gt | ge => exact h.compare _ _ a b

theorem operateUnary (h : heap.Resembles f other) (op : UnaryOp) (value : Value) :
    heap.operateUnary op value = other.operateUnary op value := by
  cases op with
  | not | typeof => rfl
  | neg | plus => rw [Heap.operateUnary, Heap.operateUnary, h.number?]

/-! ### JSON texts -/

theorem jsonWithin (h : heap.Resembles f other) (levels : Nat) (above : List Place)
    (value : Value) :
    Script.jsonWithin heap levels above value = Script.jsonWithin other levels above value := by
  induction levels generalizing above value with
  | zero => rfl
  | succ levels ih =>
    have hinner (above : List Place) :
        Script.jsonWithin heap levels above = Script.jsonWithin other levels above :=
      funext fun value => ih above value
    cases value with
    | array ref | object ref | error ref =>
      rw [Script.jsonWithin, Script.jsonWithin, hinner, h.get_eq ref (by decide)]
    | undefined | null | bool | number | string | callable | promise => rfl

theorem json (h : heap.Resembles f other) (value : Value) : heap.json value = other.json value := by
  rw [Heap.json, Heap.json, h.count, h.count, h.count, h.jsonWithin]

/-! ### What is shown -/

/-- Of pending promises it is not shown for what they wait. -/
theorem inspectWithin (h : heap.Resembles f other)
    (hpromise : ∀ ref : Ref .promise, heap.get ref = other.get ref ∨
      ∃ work work', heap.get ref = .pending work ∧ other.get ref = .pending work')
    (levels : Nat) (above : List Place) (value : Value) :
    Script.inspectWithin heap levels above value =
      Script.inspectWithin other levels above value := by
  induction levels generalizing above value with
  | zero => rfl
  | succ levels ih =>
    have hinner (above : List Place) :
        Script.inspectWithin heap levels above = Script.inspectWithin other levels above :=
      funext fun value => ih above value
    unfold Script.inspectWithin
    cases value with
    | array ref | object ref | error ref =>
      dsimp only
      rw [hinner, h.get_eq ref (by decide)]
    | callable ref =>
      dsimp only
      rw [h.get ref (by decide), Cell.mapSpans, Callable.text_mapSpans]
    | promise ref =>
      dsimp only
      rw [hinner]
      rcases hpromise ref with heq | ⟨work, work', hm, hn⟩
      · rw [heq]
      · rw [hm, hn]
    | undefined | null | bool | number | string => rfl

theorem inspect (h : heap.Resembles f other)
    (hpromise : ∀ ref : Ref .promise, heap.get ref = other.get ref ∨
      ∃ work work', heap.get ref = .pending work ∧ other.get ref = .pending work')
    (value : Value) : heap.inspect value = other.inspect value := by
  have hcontainers : heap.containers = other.containers := by
    simp only [Heap.containers, h.count]
  rw [Heap.inspect, Heap.inspect, hcontainers, h.inspectWithin hpromise]

/-! ### Names -/

theorem binder? (h : heap.Resembles f other) (name : String) (frames : List (Ref .frame)) :
    heap.binder? name frames = other.binder? name frames := by
  induction frames with
  | nil => rfl
  | cons frame rest ih => rw [Heap.binder?, Heap.binder?, h.get_eq frame (by decide), ih]

theorem get? (h : heap.Resembles f other) (scope : Scope) (name : String) :
    scope.get? heap name = scope.get? other name := by
  rw [Scope.get?, Scope.get?, Scope.binder?, Scope.binder?, h.binder?]

end Resembles

/-! ### What comes to no end -/

variable {heap : Heap} {a b value : Value}

theorem Endless.of_text? (h : heap.text? value = none) : heap.Endless :=
  .inl ⟨value, h⟩

theorem Endless.of_number? (h : heap.number? value = none) : heap.Endless := by
  cases value with
  | array ref => exact .of_text? (Option.map_eq_none_iff.mp h)
  | _ => cases h

theorem Endless.of_primitive? (h : heap.primitive? value = none) : heap.Endless := by
  unfold Heap.primitive? at h
  split at h
  · cases h
  · exact .of_text? (Option.map_eq_none_iff.mp h)

/-- Where one of two conversions is wanted, one of them comes to no end. -/
theorem Endless.of_bind {α β γ : Type} {x : Option α} {y : Option β} {f : α → β → γ}
    (hx : x = none → heap.Endless) (hy : y = none → heap.Endless)
    (h : (do return f (← x) (← y)) = none) : heap.Endless := by
  cases x with
  | none => exact hx rfl
  | some a =>
    cases y with
    | none => exact hy rfl
    | some b => cases h

theorem Endless.of_arithmetic {f : Float → Float → Float} (h : heap.arithmetic f a b = none) :
    heap.Endless :=
  .of_bind (f := fun x y => Value.number (f x y)) .of_number? .of_number? h

theorem Endless.of_compare {texts : String → String → Bool} {numbers : Float → Float → Bool}
    (h : heap.compare texts numbers a b = none) : heap.Endless := by
  unfold Heap.compare at h
  split at h
  · cases h
  · exact .of_bind (f := fun x y => Value.bool (numbers x y)) .of_number? .of_number? h

theorem Endless.of_looseEquals? (h : heap.looseEquals? a b = none) : heap.Endless := by
  unfold Heap.looseEquals? at h
  split at h
  · cases h
  split at h
  · cases h
  · exact .of_bind (f := Value.primitiveEquals) .of_primitive? .of_primitive? h

theorem Endless.of_operate {op : BinaryOp} (h : heap.operate op a b = none) : heap.Endless := by
  cases op with
  | add =>
    rw [Heap.operate, Heap.add] at h
    split at h
    · exact .of_bind (f := fun s t => Value.string (s ++ t)) .of_text? .of_text? h
    · exact .of_arithmetic h
  | sub | mul | div | rem | pow => exact .of_arithmetic h
  | looseEq | looseNe => exact .of_looseEquals? (Option.map_eq_none_iff.mp h)
  | strictEq | strictNe => cases h
  | lt | le | gt | ge => exact .of_compare h

theorem Endless.of_operateUnary {op : UnaryOp} (h : heap.operateUnary op value = none) :
    heap.Endless := by
  cases op with
  | not | typeof => cases h
  | neg | plus => exact .of_number? (Option.map_eq_none_iff.mp h)

end Heap

end Doctest.Script
