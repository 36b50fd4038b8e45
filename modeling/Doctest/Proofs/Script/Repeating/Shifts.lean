import Doctest.Proofs.Script.Data
import Doctest.Proofs.Script.Keeping.Evaluation

/-!
# Heaps in which the same is made twice

What is made on a heap can be made again on a later one, behind what was added in between. The new
arrays and objects are then found further back, and all else is where it was. Conversions and
operators tell of the values that were made again what they told of the first ones.
-/

namespace Doctest

namespace Dict

variable {α β : Type} (f : α → β) (d : Dict α)

theorem get?_mapValues (key : String) : (d.mapValues f).get? key = (d.get? key).map f := by
  have hlookup (entries : List (String × α)) :
      lookup key (entries.map fun entry => (entry.1, f entry.2)) = (lookup key entries).map f := by
    induction entries with
    | nil => rfl
    | cons entry rest ih =>
      rw [List.map_cons, lookup, lookup, ih]
      split <;> rfl
  exact hlookup d.entries

theorem mapValues_insert (key : String) (value : α) :
    (d.insert key value).mapValues f = (d.mapValues f).insert key (f value) := by
  have hput (entries : List (String × α)) :
      (put key value entries).map (fun entry => (entry.1, f entry.2)) =
        put key (f value) (entries.map fun entry => (entry.1, f entry.2)) := by
    induction entries with
    | nil => rfl
    | cons entry rest ih =>
      rw [put, List.map_cons, put]
      split
      · rfl
      · rw [List.map_cons, ih]
  exact Dict.ext (hput d.entries)

theorem mapValues_ofList (pairs : List (String × α)) :
    (ofList pairs).mapValues f = ofList (pairs.map fun pair => (pair.1, f pair.2)) := by
  have hfold (d : Dict α) :
      (pairs.foldl (fun d pair => d.insert pair.1 pair.2) d).mapValues f =
        (pairs.map fun pair => (pair.1, f pair.2)).foldl (fun d pair => d.insert pair.1 pair.2)
          (d.mapValues f) := by
    induction pairs generalizing d with
    | nil => rfl
    | cons pair rest ih =>
      rw [List.foldl_cons, List.map_cons, List.foldl_cons, ih, mapValues_insert]
  exact hfold empty

/-- Values that stay as they are make the same dictionary. -/
theorem All.mapValues_eq {f : α → α} {d : Dict α} (h : d.All fun value => f value = value) :
    d.mapValues f = d := by
  refine Dict.ext ((List.map_congr_left fun entry hmem => ?_).trans (List.map_id _))
  exact Prod.ext rfl (h entry hmem)

end Dict

namespace Script

/-- A closed heap, and what it became when arrays and objects were added. -/
structure Shift where
  base : Heap
  later : Heap
  closed : base.Closed fun _ => False
  extended : base.Extends later
  count_eq : ∀ kind : CellKind, kind ≠ .array ∧ kind ≠ .object →
    later.count kind = base.count kind

namespace Shift

variable (shift : Shift)

/-- Where a cell is found that is made again: those that were there stay, and new ones come behind
those of the later heap. -/
def ref {kind : CellKind} (ref : Ref kind) : Ref kind :=
  if ref.index < shift.base.count kind then ref
  else ⟨shift.later.count kind + (ref.index - shift.base.count kind)⟩

/-- The value that is made again in the place of a value. -/
def value : Value → Value
  | .array cell => .array (shift.ref cell)
  | .object cell => .object (shift.ref cell)
  | value => value

variable {shift} {kind : CellKind}

/-! ### Cells that are found again -/

theorem ref_of_lt {ref : Ref kind} (h : ref.index < shift.base.count kind) :
    shift.ref ref = ref :=
  if_pos h

theorem index_ref_of_le {ref : Ref kind} (h : shift.base.count kind ≤ ref.index) :
    (shift.ref ref).index = shift.later.count kind + (ref.index - shift.base.count kind) := by
  rw [Shift.ref, if_neg (Nat.not_lt.mpr h)]

/-- Two cells are not found again in the same place. -/
theorem ref_injective {a b : Ref kind} (h : shift.ref a = shift.ref b) : a = b := by
  have hgrows := shift.extended.grows kind
  have hindex : (shift.ref a).index = (shift.ref b).index := congrArg Ref.index h
  by_cases ha : a.index < shift.base.count kind
  · by_cases hb : b.index < shift.base.count kind
    · rwa [ref_of_lt ha, ref_of_lt hb] at h
    · rw [ref_of_lt ha, index_ref_of_le (Nat.not_lt.mp hb)] at hindex
      omega
  · rw [index_ref_of_le (Nat.not_lt.mp ha)] at hindex
    by_cases hb : b.index < shift.base.count kind
    · rw [ref_of_lt hb] at hindex
      omega
    · rw [index_ref_of_le (Nat.not_lt.mp hb)] at hindex
      obtain ⟨i⟩ := a
      obtain ⟨j⟩ := b
      dsimp only at *
      have hsame : i = j := by omega
      rw [hsame]

theorem value_of_within {value : Value}
    (h : value.Within (shift.base.Has fun _ => False)) : shift.value value = value := by
  cases value with
  | array cell => exact congrArg Value.array (ref_of_lt h.1)
  | object cell => exact congrArg Value.object (ref_of_lt h.1)
  | _ => rfl

/-- What is found of all items is found of those in their places. -/
theorem mapM_map_eq_some {α β : Type} {f g : α → Option β} {k : α → α} {as : List α} {bs : List β}
    (h : as.mapM f = some bs) (hg : ∀ a b, f a = some b → g (k a) = some b) :
    (as.map k).mapM g = some bs := by
  induction as generalizing bs with
  | nil => exact h
  | cons a as ih =>
    rw [List.mapM_cons] at h
    obtain ⟨b, hb, h⟩ := Option.bind_eq_some_iff.mp h
    obtain ⟨rest, hrest, h⟩ := Option.bind_eq_some_iff.mp h
    rw [List.map_cons, List.mapM_cons, hg a b hb, ih hrest]
    exact h

/-! ### What is told of a value by itself -/

@[simp] theorem isPrimitive_value (value : Value) :
    (shift.value value).isPrimitive = value.isPrimitive := by
  cases value <;> rfl

@[simp] theorem isNullish_value (value : Value) :
    (shift.value value).isNullish = value.isNullish := by
  cases value <;> rfl

@[simp] theorem isTruthy_value (value : Value) :
    (shift.value value).isTruthy = value.isTruthy := by
  cases value <;> rfl

@[simp] theorem typeName_value (value : Value) :
    (shift.value value).typeName = value.typeName := by
  cases value <;> rfl

@[simp] theorem concatenates_value (value : Value) :
    (shift.value value).concatenates = value.concatenates := by
  cases value <;> rfl

theorem value_of_isPrimitive {value : Value} (h : value.isPrimitive = true) :
    shift.value value = value :=
  value_of_within (.of_isPrimitive h)

theorem isSameCell_value (a b : Value) :
    (shift.value a).isSameCell (shift.value b) = a.isSameCell b := by
  have hiff {kind : CellKind} (x y : Ref kind) : shift.ref x = shift.ref y ↔ x = y :=
    ⟨ref_injective, congrArg shift.ref⟩
  cases a <;> cases b <;> simp only [Shift.value, Value.isSameCell, hiff]

theorem strictEquals_value (a b : Value) :
    (shift.value a).strictEquals (shift.value b) = a.strictEquals b := by
  have hsame : (shift.value a).isSameCell (shift.value b) = a.isSameCell b :=
    isSameCell_value a b
  cases a <;> cases b <;> first | rfl | exact hsame

/-! ### Heaps -/

variable (shift) in
/-- Two heaps, of which the second one has found again what was added to the first one. -/
structure Twins (heap other : Heap) : Prop where
  first : shift.base.Extends heap
  second : shift.later.Extends other
  array : ∀ ref : Ref .array, other.get (shift.ref ref) = Array.map shift.value (heap.get ref)
  object : ∀ ref : Ref .object,
    other.get (shift.ref ref) = Dict.mapValues shift.value (heap.get ref)
  rest : ∀ {kind : CellKind} (ref : Ref kind), kind ≠ .array ∧ kind ≠ .object →
    heap.get ref = shift.base.get ref ∧ other.get ref = shift.base.get ref
  count_rest : ∀ kind : CellKind, kind ≠ .array ∧ kind ≠ .object →
    heap.count kind = shift.base.count kind
  count : ∀ kind, other.count kind + shift.base.count kind =
    heap.count kind + shift.later.count kind

namespace Twins

variable {heap other : Heap}

/-- A cell of the later heap that was not there before has not been found again. -/
theorem get_later (ref : Ref kind) :
    shift.later.get (shift.ref ref) = shift.base.get ref := by
  by_cases href : ref.index < shift.base.count kind
  · rw [ref_of_lt href, shift.extended.get_eq ref href]
  · have hle := Nat.not_lt.mp href
    have hlater : shift.later.count kind ≤ (shift.ref ref).index := by
      rw [index_ref_of_le hle]
      omega
    rw [Heap.get_of_le _ _ hle, Heap.get_of_le _ _ hlater]

theorem start : shift.Twins shift.base shift.later where
  first := .refl _
  second := .refl _
  array ref := by
    have hitems : ∀ item ∈ (shift.base.get ref : Array Value), shift.value item = item :=
      fun item hmem => value_of_within (shift.closed.within ref id item hmem)
    rw [get_later, Array.map_congr_left hitems, Array.map_id']
  object ref := by
    have hvalues : Dict.All (fun value => shift.value value = value) (shift.base.get ref) :=
      fun entry hmem => value_of_within (shift.closed.within ref id entry hmem)
    rw [get_later, hvalues.mapValues_eq]
  rest {kind} ref hkind := by
    refine ⟨rfl, ?_⟩
    by_cases href : ref.index < shift.base.count kind
    · exact shift.extended.get_eq ref href
    · have hle := Nat.not_lt.mp href
      rw [Heap.get_of_le _ _ hle, Heap.get_of_le _ _ (shift.count_eq kind hkind ▸ hle)]
  count_rest _ _ := rfl
  count kind := Nat.add_comm _ _

theorem count_le (h : shift.Twins heap other) (kind : CellKind) :
    heap.count kind ≤ other.count kind := by
  have hcount := h.count kind
  have hgrows := shift.extended.grows kind
  omega

/-- The next cell of the first heap is found again as the next cell of the second one. -/
theorem ref_eq_iff (h : shift.Twins heap other) (ref : Ref kind) :
    (shift.ref ref).index = other.count kind ↔ ref.index = heap.count kind := by
  have hcount := h.count kind
  have hfirst := h.first.grows kind
  have hsecond := shift.extended.grows kind
  by_cases href : ref.index < shift.base.count kind
  · rw [ref_of_lt href]
    omega
  · rw [index_ref_of_le (Nat.not_lt.mp href)]
    omega

theorem get_alloc (h : shift.Twins heap other) {f : Cell kind → Cell kind}
    (hget : ∀ ref : Ref kind, other.get (shift.ref ref) = f (heap.get ref)) (cell : Cell kind)
    (ref : Ref kind) :
    (other.alloc kind (f cell)).2.get (shift.ref ref) = f ((heap.alloc kind cell).2.get ref) := by
  rw [Heap.get_alloc, Heap.get_alloc]
  by_cases href : ref.index = heap.count kind
  · rw [if_pos href, if_pos ((h.ref_eq_iff ref).mpr href)]
  · rw [if_neg href, if_neg (mt (h.ref_eq_iff ref).mp href), hget]

theorem count_alloc (h : shift.Twins heap other) {made : CellKind} (cell cell' : Cell made)
    (kind : CellKind) :
    (other.alloc made cell').2.count kind + shift.base.count kind =
      (heap.alloc made cell).2.count kind + shift.later.count kind := by
  have hcount := h.count kind
  rw [Heap.count_alloc, Heap.count_alloc]
  omega

theorem alloc_array (h : shift.Twins heap other) (items : Array Value) :
    shift.Twins (heap.alloc .array items).2 (other.alloc .array (items.map shift.value)).2 where
  first := h.first.trans (heap.extends_alloc _)
  second := h.second.trans (other.extends_alloc _)
  array ref := h.get_alloc (f := Array.map shift.value) h.array items ref
  object ref := by
    rw [Heap.get_alloc_of_ne _ _ _ (by decide), Heap.get_alloc_of_ne _ _ _ (by decide)]
    exact h.object ref
  rest ref hkind := by
    rw [Heap.get_alloc_of_ne _ _ _ hkind.1, Heap.get_alloc_of_ne _ _ _ hkind.1]
    exact h.rest ref hkind
  count_rest kind hkind := by
    rw [Heap.count_alloc, if_neg hkind.1, h.count_rest kind hkind, Nat.add_zero]
  count := h.count_alloc _ _

theorem alloc_object (h : shift.Twins heap other) (properties : Dict Value) :
    shift.Twins (heap.alloc .object properties).2
      (other.alloc .object (properties.mapValues shift.value)).2 where
  first := h.first.trans (heap.extends_alloc _)
  second := h.second.trans (other.extends_alloc _)
  array ref := by
    rw [Heap.get_alloc_of_ne _ _ _ (by decide), Heap.get_alloc_of_ne _ _ _ (by decide)]
    exact h.array ref
  object ref := h.get_alloc (f := Dict.mapValues shift.value) h.object properties ref
  rest ref hkind := by
    rw [Heap.get_alloc_of_ne _ _ _ hkind.2, Heap.get_alloc_of_ne _ _ _ hkind.2]
    exact h.rest ref hkind
  count_rest kind hkind := by
    rw [Heap.count_alloc, if_neg hkind.2, h.count_rest kind hkind, Nat.add_zero]
  count := h.count_alloc _ _

/-! ### Texts and numbers -/

variable {a b value : Value}

theorem get_eq (h : shift.Twins heap other) (ref : Ref kind)
    (hkind : kind ≠ .array ∧ kind ≠ .object) : other.get ref = heap.get ref :=
  (h.rest ref hkind).2.trans (h.rest ref hkind).1.symm

theorem plainText (h : shift.Twins heap other) (value : Value) :
    other.plainText (shift.value value) = heap.plainText value := by
  cases value with
  | error ref | callable ref =>
    rw [Shift.value, Heap.plainText, Heap.plainText, h.get_eq ref (by decide)]
    all_goals exact fun _ => nofun
  | _ => rfl

theorem textWithin_plain (h : shift.Twins heap other) {levels : Nat} (more : Nat) {s : String}
    (hvalue : ∀ ref, value ≠ .array ref) (htext : Script.textWithin heap levels value = some s) :
    Script.textWithin other more (shift.value value) = some s := by
  have hsame := h.plainText value
  cases value with
  | array ref => exact absurd rfl (hvalue ref)
  | _ =>
    rw [Script.textWithin] at htext ⊢
    · rwa [hsame]
    all_goals exact fun _ => nofun

/-- The levels that were enough for a text are enough for that of the value made again. -/
theorem textWithin (h : shift.Twins heap other) {levels more : Nat} {s : String}
    (htext : Script.textWithin heap levels value = some s) (hle : levels ≤ more) :
    Script.textWithin other more (shift.value value) = some s := by
  induction levels generalizing more value s with
  | zero =>
    cases value with
    | array ref => cases htext
    | _ => exact h.textWithin_plain more nofun htext
  | succ levels ih =>
    cases value with
    | array ref =>
      obtain ⟨more, rfl⟩ : ∃ n, more = n + 1 := ⟨more - 1, by omega⟩
      rw [Script.textWithin] at htext
      obtain ⟨texts, htexts, hs⟩ := Option.bind_eq_some_iff.mp htext
      rw [Shift.value, Script.textWithin, h.array, Array.toList_map]
      refine Option.bind_eq_some_iff.mpr ⟨texts, mapM_map_eq_some htexts fun item s hitem => ?_, hs⟩
      rw [isNullish_value]
      cases hnullish : item.isNullish with
      | true => rwa [hnullish] at hitem
      | false =>
        rw [hnullish] at hitem
        exact ih hitem (Nat.le_of_succ_le_succ hle)
    | _ => exact h.textWithin_plain more nofun htext

theorem text? (h : shift.Twins heap other) {s : String} (htext : heap.text? value = some s) :
    other.text? (shift.value value) = some s :=
  h.textWithin htext (h.count_le .array)

theorem number? (h : shift.Twins heap other) {x : Float} (hnumber : heap.number? value = some x) :
    other.number? (shift.value value) = some x := by
  cases value with
  | array ref =>
    obtain ⟨s, htext, hx⟩ := Option.map_eq_some_iff.mp hnumber
    exact Option.map_eq_some_iff.mpr ⟨s, h.text? htext, hx⟩
  | _ => exact hnumber

/-! ### Operators -/

theorem arithmetic (h : shift.Twins heap other) {f : Float → Float → Float} {made : Value}
    (hmade : heap.arithmetic f a b = some made) :
    other.arithmetic f (shift.value a) (shift.value b) = some made := by
  obtain ⟨x, hx, hmade⟩ := Option.bind_eq_some_iff.mp hmade
  obtain ⟨y, hy, hmade⟩ := Option.bind_eq_some_iff.mp hmade
  rw [Heap.arithmetic, h.number? hx, h.number? hy]
  exact hmade

theorem add (h : shift.Twins heap other) {made : Value} (hmade : heap.add a b = some made) :
    other.add (shift.value a) (shift.value b) = some made := by
  unfold Heap.add at hmade ⊢
  rw [concatenates_value, concatenates_value]
  by_cases htexts : (a.concatenates || b.concatenates) = true
  · rw [if_pos htexts] at hmade ⊢
    obtain ⟨s, hs, hmade⟩ := Option.bind_eq_some_iff.mp hmade
    obtain ⟨t, ht, hmade⟩ := Option.bind_eq_some_iff.mp hmade
    rw [h.text? hs, h.text? ht]
    exact hmade
  · rw [if_neg htexts] at hmade ⊢
    exact h.arithmetic hmade

theorem compare (h : shift.Twins heap other) {texts : String → String → Bool}
    {numbers : Float → Float → Bool} {made : Value}
    (hmade : heap.compare texts numbers a b = some made) :
    other.compare texts numbers (shift.value a) (shift.value b) = some made := by
  unfold Heap.compare at hmade
  split at hmade
  · exact hmade
  · next hstrings =>
    obtain ⟨x, hx, hmade⟩ := Option.bind_eq_some_iff.mp hmade
    obtain ⟨y, hy, hmade⟩ := Option.bind_eq_some_iff.mp hmade
    unfold Heap.compare
    split
    · next s t ha hb =>
      cases a <;> cases ha
      cases b <;> cases hb
      exact absurd rfl (hstrings s t rfl)
    · rw [h.number? hx, h.number? hy]
      exact hmade

theorem primitive? (h : shift.Twins heap other) {plain : Value}
    (hplain : heap.primitive? value = some plain) :
    other.primitive? (shift.value value) = some plain := by
  unfold Heap.primitive? at hplain ⊢
  rw [isPrimitive_value]
  by_cases hprimitive : value.isPrimitive = true
  · rw [if_pos hprimitive] at hplain ⊢
    rwa [value_of_isPrimitive hprimitive]
  · rw [if_neg hprimitive] at hplain ⊢
    obtain ⟨s, htext, hs⟩ := Option.map_eq_some_iff.mp hplain
    exact Option.map_eq_some_iff.mpr ⟨s, h.text? htext, hs⟩

theorem looseEquals? (h : shift.Twins heap other) {equal : Bool}
    (hequal : heap.looseEquals? a b = some equal) :
    other.looseEquals? (shift.value a) (shift.value b) = some equal := by
  unfold Heap.looseEquals? at hequal ⊢
  rw [isNullish_value, isNullish_value, isPrimitive_value, isPrimitive_value, isSameCell_value]
  by_cases hnullish : (a.isNullish || b.isNullish) = true
  · rwa [if_pos hnullish] at hequal ⊢
  by_cases hcells : (!a.isPrimitive && !b.isPrimitive) = true
  · rwa [if_neg hnullish, if_pos hcells] at hequal ⊢
  rw [if_neg hnullish, if_neg hcells] at hequal ⊢
  obtain ⟨x, hx, hequal⟩ := Option.bind_eq_some_iff.mp hequal
  obtain ⟨y, hy, hequal⟩ := Option.bind_eq_some_iff.mp hequal
  rw [h.primitive? hx, h.primitive? hy]
  exact hequal

/-- What an operator makes of two values it makes again, and no operator makes anything that is
found elsewhere. -/
theorem operate (h : shift.Twins heap other) {op : BinaryOp} {made : Value}
    (hmade : heap.operate op a b = some made) :
    other.operate op (shift.value a) (shift.value b) = some (shift.value made) := by
  rw [value_of_isPrimitive (isPrimitive_of_operate hmade)]
  cases op with
  | add => exact h.add hmade
  | sub | mul | div | rem | pow => exact h.arithmetic hmade
  | looseEq | looseNe =>
    obtain ⟨equal, hequal, hmade⟩ := Option.map_eq_some_iff.mp hmade
    exact Option.map_eq_some_iff.mpr ⟨equal, h.looseEquals? hequal, hmade⟩
  | strictEq | strictNe => rwa [Heap.operate, strictEquals_value]
  | lt | le | gt | ge => exact h.compare hmade

theorem operateUnary (h : shift.Twins heap other) {op : UnaryOp} {made : Value}
    (hmade : heap.operateUnary op value = some made) :
    other.operateUnary op (shift.value value) = some (shift.value made) := by
  rw [value_of_isPrimitive (isPrimitive_of_operateUnary hmade)]
  cases op with
  | not => rwa [Heap.operateUnary, isTruthy_value]
  | typeof => rwa [Heap.operateUnary, typeName_value]
  | neg | plus =>
    obtain ⟨x, hx, hmade⟩ := Option.map_eq_some_iff.mp hmade
    exact Option.map_eq_some_iff.mpr ⟨x, h.number? hx, hmade⟩

/-! ### Names -/

/-- No frame is found elsewhere, and no name has got another value. -/
theorem get? (h : shift.Twins heap other) {scope : Scope}
    (hscope : scope.Of (fun _ => False) shift.base) (name : String) :
    scope.get? other name = (scope.get? heap name).map shift.value := by
  have hbinder (frames : List (Ref .frame)) :
      heap.binder? name frames = shift.base.binder? name frames ∧
        other.binder? name frames = shift.base.binder? name frames := by
    induction frames with
    | nil => exact ⟨rfl, rfl⟩
    | cons frame rest ih =>
      have hframe := h.rest frame (by decide)
      rw [Heap.binder?, Heap.binder?, Heap.binder?, hframe.1, hframe.2, ih.1, ih.2]
      exact ⟨rfl, rfl⟩
  obtain ⟨hheap, hother⟩ := hbinder scope.chain
  have hget : scope.get? heap name = scope.get? shift.base name := by
    rw [Scope.get?, Scope.get?, Scope.binder?, Scope.binder?, hheap]
  rw [hget, Scope.get?, Scope.binder?, hother]
  change scope.get? shift.base name = _
  cases hfound : scope.get? shift.base name with
  | none => rfl
  | some value =>
    have hvalue := Scope.get?_of shift.closed hscope hfound
    rw [Option.map_some, value_of_within hvalue]

end Twins

end Shift

end Script

end Doctest
