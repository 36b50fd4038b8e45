import Doctest.Proofs.Script.Containment
import Doctest.Script.Equality
import Mathlib.Data.List.Perm.Subperm
import Mathlib.Data.List.ProdSigma

/-!
# Deep equality

Two values are alike if no path that leads into both of them comes to a difference. The deep
equality, which takes pairs of containers that it meets again to be equal and goes so many levels
deep only, tells just that: a difference that is nearest to the start is not behind a pair that was
met before, and there are no more pairs to be met than there are levels.
-/

namespace Doctest.Script

/-! ### Looking one level deep -/

/-- The two containers that are compared, if values are containers of one kind. -/
def Value.containers? : Value → Value → Option (Place × Place)
  | .array x, .array y => some (x.place, y.place)
  | .object x, .object y => some (x.place, y.place)
  | .error x, .error y => some (x.place, y.place)
  | _, _ => none

/-- Whether two values are equal of which one is no container, or that are containers of two
kinds. -/
def Value.equalsAlone (a b : Value) : Bool :=
  if a.isPrimitive && b.isPrimitive then areNaN a b || a.primitiveEquals b else a.isSameCell b

/-- The pairs of values of two objects with the same keys; none if the keys are not the same. -/
def pairedProperties? (a b : Dict Value) : Option (List (Value × Value)) :=
  if a.size = b.size then
    a.entries.mapM fun (key, value) => (b.get? key).map (value, ·)
  else none

namespace Heap

variable (heap : Heap)

/-- The pairs of values in the same places of two values, which are left to be compared; none if
the two values differ by themselves. -/
def parts? (a b : Value) : Option (List (Value × Value)) :=
  match a, b with
  | .array x, .array y =>
    if x = y then some []
    else if (heap.get x).size = (heap.get y).size then
      some ((heap.get x).toList.zip (heap.get y).toList)
    else none
  | .object x, .object y =>
    if x = y then some [] else pairedProperties? (heap.get x) (heap.get y)
  | .error x, .error y =>
    if x = y then some []
    else if (heap.get x).name = (heap.get y).name ∧ (heap.get x).message = (heap.get y).message then
      pairedProperties? (heap.get x).properties (heap.get y).properties
    else none
  | a, b => if a.equalsAlone b then some [] else none

/-- No path of fewer than so many steps into two values comes to a difference. -/
def EqualTo : Nat → Value → Value → Prop
  | 0, _, _ => True
  | depth + 1, a, b => ∃ parts, heap.parts? a b = some parts ∧
      ∀ pair ∈ parts, EqualTo depth pair.1 pair.2

/-- No path into two values comes to a difference. -/
def Alike (a b : Value) : Prop :=
  ∀ depth, heap.EqualTo depth a b

variable {heap} {a b : Value} {depth : Nat}

theorem EqualTo.shallower (h : heap.EqualTo (depth + 1) a b) : heap.EqualTo depth a b := by
  induction depth generalizing a b with
  | zero => trivial
  | succ depth ih =>
    obtain ⟨parts, hparts, hall⟩ := h
    exact ⟨parts, hparts, fun pair hmem => ih (hall pair hmem)⟩

/-- Alike values do not differ by themselves, and all that they hold is alike. -/
theorem alike_iff :
    heap.Alike a b ↔
      ∃ parts, heap.parts? a b = some parts ∧ ∀ pair ∈ parts, heap.Alike pair.1 pair.2 := by
  constructor
  · intro h
    obtain ⟨parts, hparts, -⟩ := h 1
    refine ⟨parts, hparts, fun pair hmem depth => ?_⟩
    obtain ⟨parts', hparts', hall⟩ := h (depth + 1)
    cases hparts.symm.trans hparts'
    exact hall pair hmem
  · rintro ⟨parts, hparts, hall⟩ (_ | depth)
    · trivial
    · exact ⟨parts, hparts, fun pair hmem => hall pair hmem depth⟩

end Heap

/-! ### The deep equality, one level after the other -/

/-- Entries are equal to the properties under their keys if each is paired with one, and all pairs
are equal. -/
theorem all_entries_eq (equal : Value → Value → Bool) (b : Dict Value)
    (entries : List (String × Value)) :
    (entries.all fun (key, value) =>
      match b.get? key with
      | some other => equal value other
      | none => false) =
    match entries.mapM fun (key, value) => (b.get? key).map (value, ·) with
    | some pairs => pairs.all fun pair => equal pair.1 pair.2
    | none => false := by
  induction entries with
  | nil => rfl
  | cons entry rest ih =>
    obtain ⟨key, value⟩ := entry
    rw [List.all_cons, List.mapM_cons, ih]
    dsimp only
    cases b.get? key with
    | none => rfl
    | some other =>
      cases rest.mapM fun (key, value) => (b.get? key).map (value, ·) with
      | none => simp
      | some pairs => simp

theorem sameProperties_eq (equal : Value → Value → Bool) (a b : Dict Value) :
    sameProperties equal a b =
      match pairedProperties? a b with
      | some pairs => pairs.all fun pair => equal pair.1 pair.2
      | none => false := by
  unfold sameProperties pairedProperties?
  by_cases hsize : a.size = b.size
  · simp only [hsize, decide_true, Bool.true_and, if_true]
    exact all_entries_eq equal b a.entries
  · simp [hsize]

/-- The pairs that are being compared below two values. -/
def metBelow (met : List (Place × Place)) (a b : Value) : List (Place × Place) :=
  (Value.containers? a b).toList ++ met

section

variable {a b : Value} (heap : Heap) (levels : Nat) (met : List (Place × Place))

theorem equalWithin_of_containers?_eq_none (h : Value.containers? a b = none) :
    equalWithin heap (levels + 1) met a b = a.equalsAlone b := by
  cases a <;> cases b <;> first | rfl | cases h

theorem Heap.parts?_of_containers?_eq_none (h : Value.containers? a b = none) :
    heap.parts? a b = if a.equalsAlone b then some [] else none := by
  cases a <;> cases b <;> first | rfl | cases h

theorem Value.of_containers?_eq_some {places : Place × Place}
    (h : Value.containers? a b = some places) :
    (∃ x y, a = .array x ∧ b = .array y) ∨ (∃ x y, a = .object x ∧ b = .object y) ∨
      ∃ x y, a = .error x ∧ b = .error y := by
  unfold Value.containers? at h
  split at h
  · exact .inl ⟨_, _, rfl, rfl⟩
  · exact .inr (.inl ⟨_, _, rfl, rfl⟩)
  · exact .inr (.inr ⟨_, _, rfl, rfl⟩)
  · cases h

end

theorem equalWithin_succ (heap : Heap) (levels : Nat) (met : List (Place × Place)) (a b : Value) :
    equalWithin heap (levels + 1) met a b =
      ((Value.containers? a b).any (· ∈ met) ||
        match heap.parts? a b with
        | some parts =>
          parts.all fun pair => equalWithin heap levels (metBelow met a b) pair.1 pair.2
        | none => false) := by
  cases hcontainers : Value.containers? a b with
  | none =>
    rw [equalWithin_of_containers?_eq_none heap levels met hcontainers,
      Heap.parts?_of_containers?_eq_none heap hcontainers]
    cases a.equalsAlone b <;> rfl
  | some places =>
    obtain ⟨x, y, rfl, rfl⟩ | ⟨x, y, rfl, rfl⟩ | ⟨x, y, rfl, rfl⟩ :=
      Value.of_containers?_eq_some hcontainers
    · cases hcontainers
      rw [equalWithin]
      by_cases hcell : x = y
      · simp [Heap.parts?, hcell]
      · by_cases hsize : (heap.get x).size = (heap.get y).size
        · simp [Heap.parts?, hcell, hsize, metBelow, Value.containers?]
        · simp [Heap.parts?, hcell, hsize]
    · cases hcontainers
      rw [equalWithin, sameProperties_eq]
      by_cases hcell : x = y
      · simp [Heap.parts?, hcell]
      · simp [Heap.parts?, hcell, metBelow, Value.containers?]
    · cases hcontainers
      rw [equalWithin]
      by_cases hcell : x = y
      · simp [Heap.parts?, hcell]
      by_cases hname : (heap.get x).name = (heap.get y).name
      · by_cases hmessage : (heap.get x).message = (heap.get y).message
        · simp [Heap.parts?, hcell, hname, hmessage, metBelow, Value.containers?,
            sameProperties_eq]
        · simp [Heap.parts?, hcell, hmessage]
      · simp [Heap.parts?, hcell, hname]

/-! ### Differences are found -/

/-- Containers of one kind are told apart by their places. -/
theorem Value.containers?_injective {a b c d : Value} {places : Place × Place}
    (h : Value.containers? a b = some places) (h' : Value.containers? c d = some places) :
    a = c ∧ b = d := by
  obtain ⟨⟨x⟩, ⟨y⟩, rfl, rfl⟩ | ⟨⟨x⟩, ⟨y⟩, rfl, rfl⟩ | ⟨⟨x⟩, ⟨y⟩, rfl, rfl⟩ :=
      of_containers?_eq_some h <;>
    obtain ⟨⟨z⟩, ⟨w⟩, rfl, rfl⟩ | ⟨⟨z⟩, ⟨w⟩, rfl, rfl⟩ | ⟨⟨z⟩, ⟨w⟩, rfl, rfl⟩ :=
      of_containers?_eq_some h' <;>
    cases h.trans h'.symm <;> exact ⟨rfl, rfl⟩

section

variable {heap : Heap}

/-- What is not different at all is not found to be different. -/
theorem equalWithin_of_equalTo {levels : Nat} {a b : Value} (h : heap.EqualTo levels a b)
    (met : List (Place × Place)) : equalWithin heap levels met a b = true := by
  induction levels generalizing met a b with
  | zero => rfl
  | succ levels ih =>
    obtain ⟨parts, hparts, hall⟩ := h
    rw [equalWithin_succ, hparts, Bool.or_eq_true]
    exact .inr (List.all_eq_true.mpr fun pair hmem => ih (hall pair hmem) _)

/-- A difference is found that is no deeper than the levels there are and nearer than the ones
that the pairs met before may have. -/
theorem equalWithin_eq_false {depth levels : Nat} (hdepth : depth ≤ levels)
    {met : List (Place × Place)}
    (hmet : ∀ a b, ∀ places ∈ met, Value.containers? a b = some places → heap.EqualTo depth a b)
    {a b : Value} (h : ¬ heap.EqualTo depth a b) : equalWithin heap levels met a b = false := by
  induction depth generalizing levels met a b with
  | zero => exact (h trivial).elim
  | succ depth ih =>
    by_cases hnear : heap.EqualTo depth a b
    case neg =>
      refine ih (by omega) (fun c d places hmem hcontainers => ?_) hnear
      exact (hmet c d places hmem hcontainers).shallower
    case pos =>
      obtain ⟨levels, rfl⟩ : ∃ fewer, levels = fewer + 1 := ⟨levels - 1, by omega⟩
      have hnot : (Value.containers? a b).any (· ∈ met) = false := by
        rw [Option.any_eq_false]
        intro places hcontainers
        exact decide_eq_false fun hmem => h (hmet a b places hmem hcontainers)
      rw [equalWithin_succ, hnot, Bool.false_or]
      cases hparts : heap.parts? a b with
      | none => rfl
      | some parts =>
        obtain ⟨pair, hmem, hpair⟩ : ∃ pair ∈ parts, ¬ heap.EqualTo depth pair.1 pair.2 := by
          by_contra hall
          exact h ⟨parts, hparts, fun pair hmem => by_contra fun hpair => hall ⟨pair, hmem, hpair⟩⟩
        apply List.all_eq_false.mpr
        refine ⟨pair, hmem, ?_⟩
        rw [Bool.not_eq_true]
        refine ih (by omega) (fun c d places hmem hcontainers => ?_) hpair
        rcases List.mem_append.mp hmem with hmem | hmem
        · have hhere := Option.mem_toList.mp hmem
          obtain ⟨rfl, rfl⟩ := Value.containers?_injective hcontainers hhere
          exact hnear
        · exact (hmet c d places hmem hcontainers).shallower

/-! ### There are levels enough -/

/-- The pairs of places of containers of a kind. -/
def Heap.placesOf (heap : Heap) (kind : CellKind) : List (Place × Place) :=
  let places := (List.range (heap.count kind)).map (Place.mk kind)
  places ×ˢ places

/-- All pairs that may be met while values are compared. -/
def Heap.comparable (heap : Heap) : List (Place × Place) :=
  heap.placesOf .array ++ heap.placesOf .object ++ heap.placesOf .error

theorem Heap.length_placesOf (heap : Heap) (kind : CellKind) :
    (heap.placesOf kind).length = Nat.pow (heap.count kind) 2 := by
  simp [Heap.placesOf, List.length_product, Nat.pow_two]

theorem Heap.length_comparable_lt (heap : Heap) : heap.comparable.length < heap.pairs := by
  simp only [Heap.comparable, List.length_append, Heap.length_placesOf]
  exact Nat.lt_succ_self _

theorem Heap.mem_placesOf {kind : CellKind} {x y : Ref kind} :
    (x.place, y.place) ∈ heap.placesOf kind ↔
      x.index < heap.count kind ∧ y.index < heap.count kind := by
  obtain ⟨i⟩ := x
  obtain ⟨j⟩ := y
  simp [Heap.placesOf, Ref.place]

theorem pairedProperties?_ne_nil {a b : Dict Value} {parts : List (Value × Value)}
    (h : pairedProperties? a b = some parts) (hne : parts ≠ []) :
    a ≠ Dict.empty ∧ b ≠ Dict.empty := by
  unfold pairedProperties? at h
  split at h
  case isFalse => cases h
  case isTrue hsize =>
    have ha : a ≠ Dict.empty := by
      rintro rfl
      cases h
      exact hne rfl
    refine ⟨ha, ?_⟩
    rintro rfl
    refine ha ?_
    exact Dict.ext (List.eq_nil_of_length_eq_zero hsize)

/-- Where there is something below two containers, both are cells of the heap. -/
theorem mem_comparable {a b : Value} {places : Place × Place}
    (hcontainers : Value.containers? a b = some places) {parts : List (Value × Value)}
    (hparts : heap.parts? a b = some parts) (hne : parts ≠ []) : places ∈ heap.comparable := by
  have hmem {kind : CellKind} {x y : Ref kind} (hx : heap.get x ≠ Cell.missing kind)
      (hy : heap.get y ≠ Cell.missing kind) : (x.place, y.place) ∈ heap.placesOf kind :=
    Heap.mem_placesOf.mpr ⟨Heap.index_lt_of_get_ne hx, Heap.index_lt_of_get_ne hy⟩
  obtain ⟨x, y, rfl, rfl⟩ | ⟨x, y, rfl, rfl⟩ | ⟨x, y, rfl, rfl⟩ :=
      Value.of_containers?_eq_some hcontainers <;> cases hcontainers <;>
    rw [Heap.parts?] at hparts <;> split at hparts
  · cases hparts
    exact (hne rfl).elim
  · split at hparts
    case isFalse => cases hparts
    case isTrue hsize =>
      cases hparts
      have hx : heap.get x ≠ #[] := fun hempty => hne (by simp [hempty])
      have hy : heap.get y ≠ #[] := fun hempty => hne (by simp [hempty])
      exact List.mem_append_left _ (List.mem_append_left _ (hmem hx hy))
  · cases hparts
    exact (hne rfl).elim
  · have hpaired := pairedProperties?_ne_nil hparts hne
    exact List.mem_append_left _ (List.mem_append_right _ (hmem hpaired.1 hpaired.2))
  · cases hparts
    exact (hne rfl).elim
  · split at hparts
    case isFalse => cases hparts
    case isTrue =>
      have hpaired := pairedProperties?_ne_nil hparts hne
      refine List.mem_append_right _ (hmem ?_ ?_)
      · exact fun hmissing => hpaired.1 (congrArg ErrorObject.properties hmissing)
      · exact fun hmissing => hpaired.2 (congrArg ErrorObject.properties hmissing)

/-- The comparison of two values where no more than so many comparisons are nested; none if more of
them would be. -/
def Heap.comparison? (heap : Heap) : Nat → List (Place × Place) → Value → Value → Option Bool
  | 0, _, _, _ => none
  | levels + 1, met, a, b =>
    if (Value.containers? a b).any met.contains then some true
    else
      (heap.parts? a b).elim (some false) fun parts =>
        parts.allM fun pair => heap.comparison? levels (metBelow met a b) pair.1 pair.2

theorem allM_eq_some {α : Type} {f : α → Option Bool} {g : α → Bool} {as : List α}
    (h : ∀ a ∈ as, f a = some (g a)) : as.allM f = some (as.all g) := by
  induction as with
  | nil => rfl
  | cons a as ih =>
    rw [List.allM, h a List.mem_cons_self, ih fun b hmem => h b (List.mem_cons_of_mem _ hmem)]
    cases hg : g a <;> simp [hg]

/-- Nested comparisons come to an end: each of them meets a new pair of cells. -/
theorem comparison?_eq_some {levels : Nat} {met : List (Place × Place)} (hnodup : met.Nodup)
    (hmet : met ⊆ heap.comparable) (hlevels : heap.pairs ≤ levels + met.length)
    (further : Nat) (a b : Value) :
    heap.comparison? levels met a b = some (equalWithin heap (levels + further) met a b) := by
  induction levels generalizing met a b with
  | zero =>
    have hlength := (List.subperm_of_subset hnodup hmet).length_le
    have hlt := heap.length_comparable_lt
    omega
  | succ levels ih =>
    rw [Heap.comparison?, Nat.add_right_comm, equalWithin_succ]
    cases hcontainers : Value.containers? a b with
    | none =>
      rw [Heap.parts?_of_containers?_eq_none heap hcontainers]
      cases a.equalsAlone b <;> rfl
    | some places =>
      by_cases hmem : places ∈ met
      · simp [hmem]
      cases hparts : heap.parts? a b with
      | none => simp [hmem]
      | some parts =>
        have hall (pair : Value × Value) (hpair : pair ∈ parts) :
            heap.comparison? levels (metBelow met a b) pair.1 pair.2 =
              some (equalWithin heap (levels + further) (metBelow met a b) pair.1 pair.2) := by
          have hplaces := mem_comparable hcontainers hparts (List.ne_nil_of_mem hpair)
          have hbelow : metBelow met a b = places :: met := by simp [metBelow, hcontainers]
          rw [hbelow]
          apply ih (List.nodup_cons.mpr ⟨hmem, hnodup⟩)
          · exact List.cons_subset.mpr ⟨hplaces, hmet⟩
          · rw [List.length_cons]
            omega
        simp [hmem, allM_eq_some hall]

/-- The deep equality is the answer of a comparison that comes to an end. -/
theorem comparison?_eq_deepEquals (heap : Heap) (a b : Value) :
    heap.comparison? heap.pairs [] a b = some (heap.deepEquals a b) :=
  comparison?_eq_some List.nodup_nil (List.nil_subset _) (Nat.le_add_right _ _) 0 a b

theorem equalWithin_eq_of_le {levels : Nat} (hlevels : heap.pairs ≤ levels) (a b : Value) :
    equalWithin heap levels [] a b = heap.deepEquals a b := by
  obtain ⟨further, rfl⟩ := Nat.exists_eq_add_of_le hlevels
  have hends : heap.comparison? heap.pairs [] a b =
      some (equalWithin heap (heap.pairs + further) [] a b) :=
    comparison?_eq_some List.nodup_nil (List.nil_subset _) (Nat.le_add_right _ _) further a b
  exact Option.some.inj (hends.symm.trans (comparison?_eq_deepEquals heap a b))

/-- **Values are deeply equal if and only if they are alike**: no path into both of them comes to
a difference. -/
theorem deepEquals_iff_alike {a b : Value} : heap.deepEquals a b = true ↔ heap.Alike a b := by
  constructor
  · intro hequal depth
    by_contra hdifferent
    have hle := Nat.le_max_left heap.pairs depth
    have hfalse := equalWithin_eq_false (Nat.le_max_right heap.pairs depth)
      (fun _ _ _ hmem => absurd hmem List.not_mem_nil) hdifferent
    rw [equalWithin_eq_of_le hle, hequal] at hfalse
    cases hfalse
  · exact fun halike => equalWithin_of_equalTo (halike _) []

/-! ### Texts and objects with one property -/

theorem deepEquals_string {s t : String} :
    heap.deepEquals (.string s) (.string t) = true ↔ s = t := by
  rw [deepEquals_iff_alike, Heap.alike_iff]
  constructor
  · rintro ⟨parts, hparts, -⟩
    rw [Heap.parts?_of_containers?_eq_none heap rfl] at hparts
    split at hparts
    case isTrue hequal => simpa [Value.equalsAlone, Value.isPrimitive, Value.areNaN,
      Value.primitiveEquals, Value.isNullish] using hequal
    case isFalse => cases hparts
  · rintro rfl
    refine ⟨[], ?_, fun pair hmem => absurd hmem List.not_mem_nil⟩
    rw [Heap.parts?_of_containers?_eq_none heap rfl]
    simp [Value.equalsAlone, Value.isPrimitive, Value.areNaN, Value.primitiveEquals,
      Value.isNullish]

theorem deepEquals_object_string (x : Ref .object) (t : String) :
    heap.deepEquals (.object x) (.string t) = false := by
  rw [← Bool.not_eq_true, deepEquals_iff_alike, Heap.alike_iff]
  rintro ⟨parts, hparts, -⟩
  cases hparts

/-- Two objects with one property each are equal if the properties have the same key and equal
values. -/
theorem deepEquals_object_of_get {x y : Ref .object} (hne : x ≠ y) {key other : String}
    {a b : Value} (hx : heap.get x = Dict.ofList [(key, a)])
    (hy : heap.get y = Dict.ofList [(other, b)]) :
    heap.deepEquals (.object x) (.object y) = true ↔ key = other ∧ heap.deepEquals a b = true := by
  have hparts : heap.parts? (.object x) (.object y) =
      if other = key then some [(a, b)] else none := by
    simp only [Heap.parts?, hne, if_false, hx, hy]
    by_cases hkey : other = key <;>
      simp [pairedProperties?, Dict.ofList, Dict.insert, Dict.put, Dict.empty, Dict.size, Dict.get?,
        Dict.lookup, hkey]
  rw [deepEquals_iff_alike, deepEquals_iff_alike, Heap.alike_iff, hparts]
  constructor
  · rintro ⟨parts, hparts, hall⟩
    split at hparts
    case isFalse => cases hparts
    case isTrue hkey =>
      cases hparts
      exact ⟨hkey.symm, hall (a, b) List.mem_cons_self⟩
  · rintro ⟨rfl, halike⟩
    exact ⟨[(a, b)], if_pos rfl, fun pair hmem => List.mem_singleton.mp hmem ▸ halike⟩

/-! ### Only what values refer to counts -/

variable {apart : Place → Prop} {later : Heap} {a b : Value}

theorem of_pairedProperties? {area : Place → Prop} {d e : Dict Value}
    (hd : d.All (Value.Within area)) (he : e.All (Value.Within area))
    {parts : List (Value × Value)} (h : pairedProperties? d e = some parts) :
    ∀ pair ∈ parts, pair.1.Within area ∧ pair.2.Within area := by
  have hentries (entries : List (String × Value)) (hsub : entries ⊆ d.entries)
      {parts : List (Value × Value)}
      (h : (entries.mapM fun (key, value) => (e.get? key).map (value, ·)) = some parts) :
      ∀ pair ∈ parts, pair.1.Within area ∧ pair.2.Within area := by
    induction entries generalizing parts with
    | nil =>
      cases h
      exact fun pair hmem => absurd hmem List.not_mem_nil
    | cons entry rest ih =>
      obtain ⟨hentry, hrest⟩ := List.cons_subset.mp hsub
      rw [List.mapM_cons] at h
      obtain ⟨pair, hpair, h⟩ := Option.bind_eq_some_iff.mp h
      obtain ⟨pairs, hpairs, h⟩ := Option.bind_eq_some_iff.mp h
      obtain ⟨other, hother, rfl⟩ := Option.map_eq_some_iff.mp hpair
      cases h
      exact List.forall_mem_cons.mpr ⟨⟨hd entry hentry, he.get? hother⟩, ih hrest hpairs⟩
  unfold pairedProperties? at h
  split at h
  case isFalse => cases h
  case isTrue => exact hentries d.entries (fun _ hmem => hmem) h

/-- What two values of a closed heap hold are values of the heap. -/
theorem of_parts? (hclosed : heap.Closed apart) (ha : a.Of apart heap) (hb : b.Of apart heap)
    {parts : List (Value × Value)} (h : heap.parts? a b = some parts) :
    ∀ pair ∈ parts, pair.1.Of apart heap ∧ pair.2.Of apart heap := by
  have hnone (pair : Value × Value) (hmem : pair ∈ ([] : List (Value × Value))) :
      pair.1.Of apart heap ∧ pair.2.Of apart heap := absurd hmem List.not_mem_nil
  cases hcontainers : Value.containers? a b with
  | none =>
    rw [Heap.parts?_of_containers?_eq_none heap hcontainers] at h
    split at h <;> cases h
    exact hnone
  | some places =>
    obtain ⟨x, y, rfl, rfl⟩ | ⟨x, y, rfl, rfl⟩ | ⟨x, y, rfl, rfl⟩ :=
        Value.of_containers?_eq_some hcontainers <;>
      rw [Heap.parts?] at h <;> split at h
    · cases h
      exact hnone
    · split at h <;> cases h
      intro pair hmem
      have hx := hclosed.within x ha.2
      have hy := hclosed.within y hb.2
      have hzip := List.of_mem_zip hmem
      exact ⟨hx _ (Array.mem_toList_iff.mp hzip.1), hy _ (Array.mem_toList_iff.mp hzip.2)⟩
    · cases h
      exact hnone
    · exact of_pairedProperties? (hclosed.within x ha.2) (hclosed.within y hb.2) h
    · cases h
      exact hnone
    · split at h
      case isFalse => cases h
      case isTrue => exact of_pairedProperties? (hclosed.within x ha.2) (hclosed.within y hb.2) h

/-- Values that refer only to cells that stay as they are stay equal or different. -/
theorem deepEquals_of_same (hclosed : heap.Closed apart)
    (hsame : ∀ {kind : CellKind} (ref : Ref kind), heap.Has apart ref.place →
      later.get ref = heap.get ref) (ha : a.Of apart heap) (hb : b.Of apart heap) :
    later.deepEquals a b = heap.deepEquals a b := by
  have hparts {a b : Value} (ha : a.Of apart heap) (hb : b.Of apart heap) :
      later.parts? a b = heap.parts? a b := by
    cases hcontainers : Value.containers? a b with
    | none => simp only [Heap.parts?_of_containers?_eq_none _ hcontainers]
    | some places =>
      obtain ⟨x, y, rfl, rfl⟩ | ⟨x, y, rfl, rfl⟩ | ⟨x, y, rfl, rfl⟩ :=
          Value.of_containers?_eq_some hcontainers <;>
        simp only [Heap.parts?, hsame x ha, hsame y hb]
  have hequal (depth : Nat) {a b : Value} (ha : a.Of apart heap) (hb : b.Of apart heap) :
      later.EqualTo depth a b ↔ heap.EqualTo depth a b := by
    induction depth generalizing a b with
    | zero => exact Iff.rfl
    | succ depth ih =>
      simp only [Heap.EqualTo, hparts ha hb]
      refine exists_congr fun parts => and_congr_right fun hfound => ?_
      refine forall₂_congr fun pair hmem => ?_
      have hof := of_parts? hclosed ha hb hfound pair hmem
      exact ih hof.1 hof.2
  rw [Bool.eq_iff_iff, deepEquals_iff_alike, deepEquals_iff_alike]
  exact forall_congr' fun depth => hequal depth ha hb

end

end Doctest.Script
