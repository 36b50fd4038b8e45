import Doctest.Proofs.Number.Comparison
import Doctest.Proofs.Script.DeepEquality

/-!
# Deep equality and access paths

A path leads into a value by the items of arrays, the properties of objects and the extra properties
of errors. Two values are deeply equal if and only if no path that leads into both of them comes to
values that do not match. The comparison comes to an end whatever contains itself.
-/

namespace Doctest

namespace Dict

variable {α : Type} {a b : Dict α} {key : String} {value : α}

theorem lookup_eq_some_iff {entries : List (String × α)} (h : (entries.map Prod.fst).Nodup) :
    lookup key entries = some value ↔ (key, value) ∈ entries := by
  refine ⟨mem_of_lookup, fun hmem => ?_⟩
  induction entries with
  | nil => cases hmem
  | cons first rest ih =>
    obtain ⟨hfirst, hrest⟩ := List.nodup_cons.mp h
    rw [lookup]
    rcases List.mem_cons.mp hmem with rfl | hmem
    · exact if_pos rfl
    · have hne : first.1 ≠ key := fun heq =>
        hfirst (heq ▸ List.mem_map_of_mem (f := Prod.fst) hmem)
      rw [if_neg hne]
      exact ih hrest hmem

/-- The value of a key is the one that stands with it. -/
theorem get?_eq_some_iff : a.get? key = some value ↔ (key, value) ∈ a.entries :=
  lookup_eq_some_iff a.nodup_keys

theorem exists_get?_iff : (∃ value, a.get? key = some value) ↔ key ∈ a.keys := by
  simp [get?_eq_some_iff, keys]

/-- Of two dictionaries with as many keys, of which one has all keys of the other, both have the
same keys. -/
theorem mem_keys_iff (hsize : a.size = b.size) (h : a.keys ⊆ b.keys) :
    key ∈ a.keys ↔ key ∈ b.keys := by
  have hlength : b.keys.length ≤ a.keys.length := by
    simpa [keys, size] using Nat.le_of_eq hsize.symm
  exact ((List.subperm_of_subset a.nodup_keys h).perm_of_length_le hlength).mem_iff

theorem size_eq (h : ∀ key, key ∈ a.keys ↔ key ∈ b.keys) : a.size = b.size := by
  have hperm := (List.perm_ext_iff_of_nodup a.nodup_keys b.nodup_keys).mpr h
  simpa [keys, size] using hperm.length_eq

end Dict

namespace Script

/-! ### Paths and values that do not match -/

/-- One step into a value. -/
inductive Access where
  | item (index : Nat)
  | property (key : String)
  /-- A property of an error that is neither its name nor its message. -/
  | extra (key : String)

namespace Heap

variable (heap : Heap)

/-- The value one step into another one. -/
def access? : Value → Access → Option Value
  | .array ref, .item index => (heap.get ref)[index]?
  | .object ref, .property key => (heap.get ref).get? key
  | .error ref, .extra key => (heap.get ref).properties.get? key
  | _, _ => none

/-- The value at the end of a path into another one. -/
def follow? : Value → List Access → Option Value
  | value, [] => some value
  | value, step :: path => (heap.access? value step).bind (follow? · path)

end Heap

/-- The kind of the cell that a value refers to. -/
def Value.kind? : Value → Option CellKind
  | .undefined | .null | .bool _ | .number _ | .string _ => none
  | .array _ => some .array
  | .object _ => some .object
  | .error _ => some .error
  | .callable _ => some .callable
  | .promise _ => some .promise

/-- Two values that do not match, whatever they hold. -/
inductive Heap.Mismatch (heap : Heap) : Value → Value → Prop
  /-- Two values that are no references, neither both no numbers nor equal by `==`. -/
  | primitives {a b : Value} (ha : a.isPrimitive) (hb : b.isPrimitive)
    (hnan : Value.areNaN a b = false) (hequal : heap.looseEquals? a b = some false) :
    heap.Mismatch a b
  /-- A reference and none, or references to cells of two kinds. -/
  | kinds {a b : Value} (h : a.kind? ≠ b.kind?) : heap.Mismatch a b
  | lengths {x y : Ref .array} (h : (heap.get x).size ≠ (heap.get y).size) :
    heap.Mismatch (.array x) (.array y)
  | keys {x y : Ref .object} (h : ¬ ∀ key, key ∈ (heap.get x).keys ↔ key ∈ (heap.get y).keys) :
    heap.Mismatch (.object x) (.object y)
  | names {x y : Ref .error} (h : (heap.get x).name ≠ (heap.get y).name) :
    heap.Mismatch (.error x) (.error y)
  | messages {x y : Ref .error} (h : (heap.get x).message ≠ (heap.get y).message) :
    heap.Mismatch (.error x) (.error y)
  | extras {x y : Ref .error}
    (h : ¬ ∀ key, key ∈ (heap.get x).properties.keys ↔ key ∈ (heap.get y).properties.keys) :
    heap.Mismatch (.error x) (.error y)
  | functions {x y : Ref .callable} (h : x ≠ y) : heap.Mismatch (.callable x) (.callable y)
  | promises {x y : Ref .promise} (h : x ≠ y) : heap.Mismatch (.promise x) (.promise y)

/-! ### Looking one level deep -/

theorem mapM_eq_none_iff {α β : Type} {f : α → Option β} {as : List α} :
    as.mapM f = none ↔ ∃ a ∈ as, f a = none := by
  induction as with
  | nil => simp
  | cons a as ih =>
    rw [List.mapM_cons]
    cases hf : f a with
    | none => simp [hf]
    | some b => cases hrest : as.mapM f <;> simp_all

theorem mem_of_mapM_eq_some {α β : Type} {f : α → Option β} {as : List α} {bs : List β}
    (h : as.mapM f = some bs) {b : β} : b ∈ bs ↔ ∃ a ∈ as, f a = some b := by
  induction as generalizing bs with
  | nil =>
    cases h
    simp
  | cons a as ih =>
    rw [List.mapM_cons] at h
    obtain ⟨first, hfirst, h⟩ := Option.bind_eq_some_iff.mp h
    obtain ⟨rest, hrest, h⟩ := Option.bind_eq_some_iff.mp h
    cases h
    simp [ih hrest, hfirst, eq_comm]

/-- What is paired are the values at the same place. -/
theorem mem_zip_toList_iff {α β : Type} {xs : Array α} {ys : Array β} {pair : α × β} :
    pair ∈ xs.toList.zip ys.toList ↔
      ∃ i : Nat, xs[i]? = some pair.1 ∧ ys[i]? = some pair.2 := by
  simp only [List.mem_iff_getElem?, List.getElem?_zip_eq_some, Array.getElem?_toList]

section Properties

variable {a b : Dict Value}

/-- Properties are not paired if the keys are not the same. -/
theorem pairedProperties?_eq_none_iff :
    pairedProperties? a b = none ↔ ¬ ∀ key, key ∈ a.keys ↔ key ∈ b.keys := by
  unfold pairedProperties?
  by_cases hsize : a.size = b.size
  case neg => simpa [hsize] using mt Dict.size_eq hsize
  case pos =>
    rw [if_pos hsize, mapM_eq_none_iff, iff_not_comm]
    constructor
    · rintro hkeys ⟨⟨key, value⟩, hentry, hnone⟩
      have hmem : key ∈ a.keys := List.mem_map_of_mem (f := Prod.fst) hentry
      obtain ⟨other, hother⟩ := Dict.exists_get?_iff.mpr ((hkeys key).mp hmem)
      dsimp only at hnone
      rw [hother] at hnone
      cases hnone
    · intro hnone key
      refine Dict.mem_keys_iff hsize fun key hmem => ?_
      obtain ⟨value, hvalue⟩ := Dict.exists_get?_iff.mpr hmem
      by_contra hkey
      refine hnone ⟨(key, value), Dict.get?_eq_some_iff.mp hvalue, ?_⟩
      rw [Option.map_eq_none_iff, Option.eq_none_iff_forall_ne_some]
      exact fun other hother => hkey (Dict.exists_get?_iff.mp ⟨other, hother⟩)

/-- What is paired are the values under the same key. -/
theorem mem_pairedProperties?_iff {parts : List (Value × Value)}
    (h : pairedProperties? a b = some parts) {pair : Value × Value} :
    pair ∈ parts ↔ ∃ key, a.get? key = some pair.1 ∧ b.get? key = some pair.2 := by
  unfold pairedProperties? at h
  split at h
  case isFalse => cases h
  case isTrue =>
    rw [mem_of_mapM_eq_some h]
    constructor
    · rintro ⟨⟨key, value⟩, hentry, hpair⟩
      obtain ⟨other, hother, rfl⟩ := Option.map_eq_some_iff.mp hpair
      exact ⟨key, Dict.get?_eq_some_iff.mpr hentry, hother⟩
    · rintro ⟨key, hfirst, hsecond⟩
      refine ⟨(key, pair.1), Dict.get?_eq_some_iff.mp hfirst, ?_⟩
      dsimp only
      rw [hsecond, Option.map_some]

end Properties

/-! ### Values that are no references -/

section Primitives

variable {heap : Heap} {a b : Value}

theorem kind?_eq_none_iff : a.kind? = none ↔ a.isPrimitive := by
  cases a <;> simp [Value.kind?, Value.isPrimitive]

theorem looseEquals?_of_isPrimitive (ha : a.isPrimitive) (hb : b.isPrimitive) :
    heap.looseEquals? a b = some (a.primitiveEquals b) := by
  unfold Heap.looseEquals?
  by_cases hnullish : (a.isNullish || b.isNullish) = true
  · unfold Value.primitiveEquals
    rw [if_pos hnullish, if_pos hnullish]
  · rw [if_neg hnullish]
    simp [ha, hb, Heap.primitive?]

theorem areNaN_comm (a b : Value) : a.areNaN b = b.areNaN a := by
  cases a <;> cases b <;> simp [Value.areNaN, Bool.and_comm]

theorem primitiveEquals_comm (a b : Value) : a.primitiveEquals b = b.primitiveEquals a := by
  unfold Value.primitiveEquals
  rw [Bool.or_comm, Bool.and_comm]
  split
  · rfl
  · cases a <;> cases b <;> simp [Number.beq_comm, eq_comm]

/-- A value that is no reference is equal to itself, or not a number. -/
theorem primitiveEquals_self (ha : a.isPrimitive) : a.areNaN a || a.primitiveEquals a := by
  cases a with
  | number x =>
    cases hnan : x.isNaN with
    | true => rw [Value.areNaN, hnan, Bool.and_self, Bool.true_or]
    | false => simp [Value.primitiveEquals, Value.isNullish, Value.primitiveNumber,
        Number.beq_self hnan]
  | bool b =>
    have hone : ((1.0 : Float) == 1.0) = true := by decide
    have hzero : ((0.0 : Float) == 0.0) = true := by decide
    cases b <;> simp [Value.primitiveEquals, Value.isNullish, Value.primitiveNumber, hone, hzero]
  | undefined | null | string => simp [Value.primitiveEquals, Value.isNullish]
  | array | object | error | callable | promise => cases ha

end Primitives

/-! ### What the comparison looks at -/

section

variable {heap : Heap} {a b : Value}

theorem not_mismatch_self (a : Value) : ¬ heap.Mismatch a a := by
  intro h
  cases h with
  | primitives ha _ hnan hequal =>
    rw [looseEquals?_of_isPrimitive ha ha, Option.some.injEq] at hequal
    have hself := primitiveEquals_self ha
    rw [hnan, hequal] at hself
    cases hself
  | kinds h | lengths h | names h | messages h | functions h | promises h => exact h rfl
  | keys h | extras h => exact h fun _ => Iff.rfl

theorem isSameCell_iff : a.isSameCell b = true ↔ a = b ∧ a.isPrimitive = false := by
  cases a <;> cases b <;> simp [Value.isSameCell, Value.isPrimitive]

/-- References to cells of one kind that hold no values to compare. -/
theorem of_kind?_eq (hkinds : a.kind? = b.kind?) (hcontainers : Value.containers? a b = none)
    (hprimitive : ¬ (a.isPrimitive && b.isPrimitive) = true) :
    (∃ x y, a = .callable x ∧ b = .callable y) ∨ ∃ x y, a = .promise x ∧ b = .promise y := by
  cases a <;> cases b <;> simp_all [Value.kind?, Value.containers?, Value.isPrimitive]

/-- Values of which one is no container, or of two kinds, are equal unless they do not match. -/
theorem equalsAlone_eq_false_iff (hcontainers : Value.containers? a b = none) :
    a.equalsAlone b = false ↔ heap.Mismatch a b := by
  unfold Value.equalsAlone
  by_cases hprimitive : (a.isPrimitive && b.isPrimitive) = true
  · obtain ⟨ha, hb⟩ := Bool.and_eq_true_iff.mp hprimitive
    rw [if_pos hprimitive, Bool.or_eq_false_iff]
    constructor
    · rintro ⟨hnan, hequal⟩
      exact .primitives ha hb hnan (by rw [looseEquals?_of_isPrimitive ha hb, hequal])
    · rintro (⟨-, -, hnan, hequal⟩ | hkinds | _)
      · rw [looseEquals?_of_isPrimitive ha hb, Option.some.injEq] at hequal
        exact ⟨hnan, hequal⟩
      · exact absurd ((kind?_eq_none_iff.mpr ha).trans (kind?_eq_none_iff.mpr hb).symm) hkinds
      all_goals cases ha
  · rw [if_neg hprimitive, ← Bool.not_eq_true, isSameCell_iff]
    constructor
    · intro hdifferent
      by_cases hkinds : a.kind? = b.kind?
      case neg => exact .kinds hkinds
      case pos =>
        obtain ⟨x, y, rfl, rfl⟩ | ⟨x, y, rfl, rfl⟩ := of_kind?_eq hkinds hcontainers hprimitive
        · exact .functions fun heq => hdifferent ⟨congrArg _ heq, rfl⟩
        · exact .promises fun heq => hdifferent ⟨congrArg _ heq, rfl⟩
    · rintro h ⟨rfl, -⟩
      exact not_mismatch_self a h

theorem mismatch_array_iff {x y : Ref .array} :
    heap.Mismatch (.array x) (.array y) ↔ (heap.get x).size ≠ (heap.get y).size := by
  refine ⟨fun h => ?_, .lengths⟩
  cases h with
  | primitives ha => cases ha
  | kinds h => exact absurd rfl h
  | lengths h => exact h

theorem mismatch_object_iff {x y : Ref .object} :
    heap.Mismatch (.object x) (.object y) ↔
      ¬ ∀ key, key ∈ (heap.get x).keys ↔ key ∈ (heap.get y).keys := by
  refine ⟨fun h => ?_, .keys⟩
  cases h with
  | primitives ha => cases ha
  | kinds h => exact absurd rfl h
  | keys h => exact h

theorem mismatch_error_iff {x y : Ref .error} :
    heap.Mismatch (.error x) (.error y) ↔
      ((heap.get x).name = (heap.get y).name ∧ (heap.get x).message = (heap.get y).message) →
        ¬ ∀ key, key ∈ (heap.get x).properties.keys ↔ key ∈ (heap.get y).properties.keys := by
  constructor
  · rintro h ⟨hname, hmessage⟩
    cases h with
    | primitives ha => cases ha
    | kinds h => exact absurd rfl h
    | names h => exact absurd hname h
    | messages h => exact absurd hmessage h
    | extras h => exact h
  · intro h
    by_cases hname : (heap.get x).name = (heap.get y).name
    case neg => exact .names hname
    by_cases hmessage : (heap.get x).message = (heap.get y).message
    case neg => exact .messages hmessage
    exact .extras (h ⟨hname, hmessage⟩)

/-- The comparison of a value with itself does not look inside. -/
theorem parts?_self (a : Value) : heap.parts? a a = some [] := by
  cases hcontainers : Value.containers? a a with
  | none =>
    have hself : ¬ heap.Mismatch a a := not_mismatch_self a
    have halone : ¬ a.equalsAlone a = false := mt (equalsAlone_eq_false_iff hcontainers).mp hself
    rw [Heap.parts?_of_containers?_eq_none heap hcontainers, if_pos (by simpa using halone)]
  | some places =>
    obtain ⟨x, y, rfl, -⟩ | ⟨x, y, rfl, -⟩ | ⟨x, y, rfl, -⟩ :=
        Value.of_containers?_eq_some hcontainers <;>
      exact if_pos rfl

/-- Values differ by themselves if they do not match. -/
theorem parts?_eq_none_iff : heap.parts? a b = none ↔ heap.Mismatch a b := by
  cases hcontainers : Value.containers? a b with
  | none =>
    rw [Heap.parts?_of_containers?_eq_none heap hcontainers, ← equalsAlone_eq_false_iff hcontainers]
    cases a.equalsAlone b <;> simp
  | some places =>
    by_cases hsame : a = b
    · subst hsame
      exact iff_of_false (by simp [parts?_self]) (not_mismatch_self a)
    obtain ⟨x, y, rfl, rfl⟩ | ⟨x, y, rfl, rfl⟩ | ⟨x, y, rfl, rfl⟩ :=
        Value.of_containers?_eq_some hcontainers <;>
      rw [Heap.parts?, if_neg fun heq => hsame (congrArg _ heq)]
    · rw [mismatch_array_iff]
      split <;> simp_all
    · rw [pairedProperties?_eq_none_iff, mismatch_object_iff]
    · rw [mismatch_error_iff]
      split
      case isTrue h => rw [pairedProperties?_eq_none_iff, imp_iff_right h]
      case isFalse h => exact iff_of_true rfl fun hsame => absurd hsame h

/-- Two values that are equal by themselves, of which one is no container, lead nowhere. -/
theorem access?_eq_none (hcontainers : Value.containers? a b = none) (h : ¬ heap.Mismatch a b)
    (hne : a ≠ b) (step : Access) : heap.access? a step = none := by
  rw [← equalsAlone_eq_false_iff hcontainers, Bool.not_eq_false, Value.equalsAlone] at h
  split at h
  case isTrue hprimitive =>
    have ha := (Bool.and_eq_true_iff.mp hprimitive).1
    cases a <;> first | rfl | cases ha
  case isFalse => exact absurd (isSameCell_iff.mp h).1 hne

/-- The values that are left to be compared are those one step into both values. -/
theorem mem_parts?_iff {parts : List (Value × Value)} (h : heap.parts? a b = some parts)
    (hne : a ≠ b) {pair : Value × Value} :
    pair ∈ parts ↔
      ∃ step, heap.access? a step = some pair.1 ∧ heap.access? b step = some pair.2 := by
  have hmatch : ¬ heap.Mismatch a b := by simp [← parts?_eq_none_iff, h]
  cases hcontainers : Value.containers? a b with
  | none =>
    rw [Heap.parts?_of_containers?_eq_none heap hcontainers] at h
    split at h <;> cases h
    simp [access?_eq_none hcontainers hmatch hne]
  | some places =>
    obtain ⟨x, y, rfl, rfl⟩ | ⟨x, y, rfl, rfl⟩ | ⟨x, y, rfl, rfl⟩ :=
        Value.of_containers?_eq_some hcontainers <;>
      rw [Heap.parts?, if_neg fun heq => hne (congrArg _ heq)] at h
    · split at h <;> cases h
      rw [mem_zip_toList_iff]
      constructor
      · rintro ⟨i, hi⟩
        exact ⟨.item i, hi⟩
      · rintro ⟨step, hfirst, hsecond⟩
        cases step with
        | item i => exact ⟨i, hfirst, hsecond⟩
        | property | extra => cases hfirst
    · rw [mem_pairedProperties?_iff h]
      constructor
      · rintro ⟨key, hkey⟩
        exact ⟨.property key, hkey⟩
      · rintro ⟨step, hfirst, hsecond⟩
        cases step with
        | property key => exact ⟨key, hfirst, hsecond⟩
        | item | extra => cases hfirst
    · split at h
      case isFalse => cases h
      case isTrue =>
        rw [mem_pairedProperties?_iff h]
        constructor
        · rintro ⟨key, hkey⟩
          exact ⟨.extra key, hkey⟩
        · rintro ⟨step, hfirst, hsecond⟩
          cases step with
          | extra key => exact ⟨key, hfirst, hsecond⟩
          | item | property => cases hfirst

/-! ### Paths -/

theorem Heap.Mismatch.symm (h : heap.Mismatch a b) : heap.Mismatch b a := by
  cases h with
  | primitives ha hb hnan hequal =>
    rw [looseEquals?_of_isPrimitive ha hb, primitiveEquals_comm] at hequal
    rw [areNaN_comm] at hnan
    exact .primitives hb ha hnan (by rw [looseEquals?_of_isPrimitive hb ha, hequal])
  | kinds h => exact .kinds h.symm
  | lengths h => exact .lengths h.symm
  | keys h => exact .keys fun hkeys => h fun key => (hkeys key).symm
  | names h => exact .names h.symm
  | messages h => exact .messages h.symm
  | extras h => exact .extras fun hkeys => h fun key => (hkeys key).symm
  | functions h => exact .functions h.symm
  | promises h => exact .promises h.symm

/-- Values that are alike match at the end of each path into both of them. -/
theorem Heap.Alike.not_mismatch (h : heap.Alike a b) {path : List Access} {x y : Value}
    (hx : heap.follow? a path = some x) (hy : heap.follow? b path = some y) :
    ¬ heap.Mismatch x y := by
  induction path generalizing a b with
  | nil =>
    cases hx
    cases hy
    obtain ⟨parts, hparts, -⟩ := Heap.alike_iff.mp h
    simp [← parts?_eq_none_iff, hparts]
  | cons step path ih =>
    by_cases hsame : a = b
    · -- The comparison of a cell with itself does not look inside, but the path is the same.
      subst hsame
      cases hx.symm.trans hy
      exact not_mismatch_self x
    · obtain ⟨parts, hparts, hall⟩ := Heap.alike_iff.mp h
      obtain ⟨a', ha', hx⟩ := Option.bind_eq_some_iff.mp hx
      obtain ⟨b', hb', hy⟩ := Option.bind_eq_some_iff.mp hy
      exact ih (hall (a', b') ((mem_parts?_iff hparts hsame).mpr ⟨step, ha', hb'⟩)) hx hy

/-- Values that match at the end of each path into both of them are alike. -/
theorem alike_of_paths
    (h : ∀ path x y, heap.follow? a path = some x → heap.follow? b path = some y →
      ¬ heap.Mismatch x y) : heap.Alike a b := by
  intro depth
  induction depth generalizing a b with
  | zero => trivial
  | succ depth ih =>
    have hmatch := h [] a b rfl rfl
    obtain ⟨parts, hparts⟩ := Option.ne_none_iff_exists'.mp (mt parts?_eq_none_iff.mp hmatch)
    refine ⟨parts, hparts, fun pair hmem => ih fun path x y hx hy => ?_⟩
    by_cases hsame : a = b
    · subst hsame
      rw [parts?_self] at hparts
      cases hparts
      cases hmem
    · obtain ⟨step, hfirst, hsecond⟩ := (mem_parts?_iff hparts hsame).mp hmem
      refine h (step :: path) x y ?_ ?_
      · rw [Heap.follow?, hfirst, Option.bind_some, hx]
      · rw [Heap.follow?, hsecond, Option.bind_some, hy]

/-- **Deep equality is bisimilarity.** The comparison of two values comes to an end, and finds them
equal if and only if no path that leads into both comes to values that do not match. So every value
is deeply equal to itself, and it does not matter which of two values comes first. -/
theorem deepEquals_iff_paths_match (heap : Heap) (a b : Value) :
    heap.comparison? heap.pairs [] a b = some (heap.deepEquals a b) ∧
      (heap.deepEquals a b = true ↔
        ∀ path x y, heap.follow? a path = some x → heap.follow? b path = some y →
          ¬ heap.Mismatch x y) ∧
      heap.deepEquals a a = true ∧ heap.deepEquals a b = heap.deepEquals b a := by
  have hpaths (a b : Value) : heap.deepEquals a b = true ↔
      ∀ path x y, heap.follow? a path = some x → heap.follow? b path = some y →
        ¬ heap.Mismatch x y := by
    rw [deepEquals_iff_alike]
    exact ⟨fun halike path x y hx hy => halike.not_mismatch hx hy, alike_of_paths⟩
  refine ⟨comparison?_eq_deepEquals heap a b, hpaths a b, ?_, ?_⟩
  · refine (hpaths a a).mpr fun path x y hx hy => ?_
    cases hx.symm.trans hy
    exact not_mismatch_self x
  · rw [Bool.eq_iff_iff, hpaths, hpaths]
    constructor
    · exact fun h path x y hx hy hmismatch => h path y x hy hx hmismatch.symm
    · exact fun h path x y hx hy hmismatch => h path y x hy hx hmismatch.symm

end

end Script

end Doctest
