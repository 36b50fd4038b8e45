import Doctest.Proofs.Script.Cells
import Mathlib.Data.List.Perm.Subperm

/-!
# Data

What an array or object without circles holds, as a tree without references. What holds a datum
keeps it while cells are only added, and no container stands inside itself there.
-/

namespace Doctest

theorem Dict.put_of_notMem {α : Type} {key : String} (value : α) {entries : List (String × α)}
    (h : key ∉ entries.map Prod.fst) : put key value entries = entries ++ [(key, value)] := by
  induction entries with
  | nil => rfl
  | cons first rest ih =>
    rw [List.map_cons, List.mem_cons, not_or] at h
    rw [put, if_neg (Ne.symm h.1), ih h.2, List.cons_append]

/-- Keys of which none is there twice stay as they are. -/
theorem Dict.entries_ofList {α : Type} {pairs : List (String × α)}
    (h : (pairs.map Prod.fst).Nodup) : (ofList pairs).entries = pairs := by
  have hfold (d : Dict α) (hd : ((d.entries ++ pairs).map Prod.fst).Nodup) :
      (pairs.foldl (fun d pair => d.insert pair.1 pair.2) d).entries = d.entries ++ pairs := by
    induction pairs generalizing d with
    | nil => exact (List.append_nil _).symm
    | cons pair rest ih =>
      have hnew : pair.1 ∉ d.entries.map Prod.fst := by
        rw [List.map_append, List.map_cons] at hd
        intro hmem
        exact (List.nodup_append.mp hd).2.2 _ hmem _ List.mem_cons_self rfl
      have hput : (d.insert pair.1 pair.2).entries = d.entries ++ [pair] :=
        put_of_notMem pair.2 hnew
      rw [List.foldl_cons, ih (List.nodup_cons.mp h).2 _ (by rwa [hput, List.append_assoc]), hput,
        List.append_assoc]
      rfl
  exact hfold empty h

namespace Script

/-- A tree of values: those that are no references, items in an order, and keys with what they
stand for in an order. -/
inductive Datum where
  | primitive (value : Value) (plain : value.isPrimitive = true)
  | array (items : List Datum)
  | object (properties : List (String × Datum))

namespace Datum

mutual

/-- The number of nodes. -/
def size : Datum → Nat
  | .primitive _ _ => 1
  | .array items => 1 + sizeAll items
  | .object properties => 1 + sizeUnder properties

def sizeAll : List Datum → Nat
  | [] => 0
  | item :: rest => item.size + sizeAll rest

def sizeUnder : List (String × Datum) → Nat
  | [] => 0
  | (_, item) :: rest => item.size + sizeUnder rest

end

mutual

/-- How many containers stand inside each other. -/
def depth : Datum → Nat
  | .primitive _ _ => 0
  | .array items => 1 + depthAll items
  | .object properties => 1 + depthUnder properties

def depthAll : List Datum → Nat
  | [] => 0
  | item :: rest => max item.depth (depthAll rest)

def depthUnder : List (String × Datum) → Nat
  | [] => 0
  | (_, item) :: rest => max item.depth (depthUnder rest)

end

mutual

/-- Something that holds of all values without references, and something that holds of all
keys. -/
def Every (leaf : Value → Prop) (named : String → Prop) : Datum → Prop
  | .primitive value _ => leaf value
  | .array items => EveryIn leaf named items
  | .object properties => EveryUnder leaf named properties

def EveryIn (leaf : Value → Prop) (named : String → Prop) : List Datum → Prop
  | [] => True
  | item :: rest => item.Every leaf named ∧ EveryIn leaf named rest

def EveryUnder (leaf : Value → Prop) (named : String → Prop) : List (String × Datum) → Prop
  | [] => True
  | (key, item) :: rest => named key ∧ item.Every leaf named ∧ EveryUnder leaf named rest

end

end Datum

/-- The array or object that a value refers to. -/
def Value.container? : Value → Option Place
  | .array ref => some ref.place
  | .object ref => some ref.place
  | _ => none

namespace Heap

mutual

/-- A value is a datum, or it refers to a container that holds it. -/
def Holds (heap : Heap) : Datum → Value → Prop
  | .primitive plain _, value => value = plain
  | .array items, value => ∃ ref : Ref .array, value = .array ref ∧ ref.index < heap.count .array ∧
      heap.HoldsAll items (heap.get ref).toList
  | .object properties, value =>
      ∃ ref : Ref .object, value = .object ref ∧ ref.index < heap.count .object ∧
        heap.HoldsUnder properties (heap.get ref).entries

/-- Values hold data, one each. -/
def HoldsAll (heap : Heap) : List Datum → List Value → Prop
  | [], [] => True
  | item :: items, value :: values => heap.Holds item value ∧ heap.HoldsAll items values
  | _, _ => False

/-- Values under keys hold data under the same keys, in the same order. -/
def HoldsUnder (heap : Heap) : List (String × Datum) → List (String × Value) → Prop
  | [], [] => True
  | (key, item) :: items, entry :: entries =>
      entry.1 = key ∧ heap.Holds item entry.2 ∧ heap.HoldsUnder items entries
  | _, _ => False

end

/-! ### A value holds one datum -/

variable {heap later last : Heap}

mutual

theorem Holds.unique {d d' : Datum} {value : Value} (h : heap.Holds d value)
    (h' : heap.Holds d' value) : d = d' := by
  cases d with
  | primitive plain hplain =>
    obtain rfl : value = plain := h
    cases d' with
    | primitive plain' hplain' =>
      obtain rfl : value = plain' := h'
      rfl
    | array items | object items =>
      obtain ⟨ref, rfl, -⟩ := h'
      cases hplain
  | array items =>
    obtain ⟨ref, rfl, -, hitems⟩ := h
    cases d' with
    | primitive plain' hplain' =>
      cases (h' : Value.array ref = plain')
      cases hplain'
    | array items' =>
      obtain ⟨_, ⟨⟩, -, hitems'⟩ := h'
      rw [HoldsAll.unique hitems hitems']
    | object => obtain ⟨_, ⟨⟩, -⟩ := h'
  | object properties =>
    obtain ⟨ref, rfl, -, hproperties⟩ := h
    cases d' with
    | primitive plain' hplain' =>
      cases (h' : Value.object ref = plain')
      cases hplain'
    | array => obtain ⟨_, ⟨⟩, -⟩ := h'
    | object properties' =>
      obtain ⟨_, ⟨⟩, -, hproperties'⟩ := h'
      rw [HoldsUnder.unique hproperties hproperties']
termination_by structural d

theorem HoldsAll.unique {items items' : List Datum} {values : List Value}
    (h : heap.HoldsAll items values) (h' : heap.HoldsAll items' values) : items = items' := by
  match items, values, items', h, h' with
  | [], [], [], _, _ => rfl
  | item :: items, value :: values, item' :: items', h, h' =>
    rw [Holds.unique h.1 h'.1, HoldsAll.unique h.2 h'.2]
termination_by structural items

theorem HoldsUnder.unique {properties properties' : List (String × Datum)}
    {entries : List (String × Value)} (h : heap.HoldsUnder properties entries)
    (h' : heap.HoldsUnder properties' entries) : properties = properties' := by
  match properties, entries, properties', h, h' with
  | [], [], [], _, _ => rfl
  | (key, item) :: properties, entry :: entries, (key', item') :: properties', h, h' =>
    rw [← h.1, ← h'.1, Holds.unique h.2.1 h'.2.1, HoldsUnder.unique h.2.2 h'.2.2]
termination_by structural properties

end

/-! ### Cells are added -/

/-- All cells of a heap are in another one, with the same contents. -/
structure Extends (heap later : Heap) : Prop where
  grows : heap.Grows later
  get_eq : ∀ {kind : CellKind} (ref : Ref kind), ref.index < heap.count kind →
    later.get ref = heap.get ref

theorem Extends.refl (heap : Heap) : heap.Extends heap :=
  ⟨.refl heap, fun _ _ => rfl⟩

theorem Extends.trans (h : heap.Extends later) (hlater : later.Extends last) :
    heap.Extends last where
  grows := h.grows.trans hlater.grows
  get_eq ref href := by
    rw [hlater.get_eq ref (Nat.lt_of_lt_of_le href (h.grows _)), h.get_eq ref href]

theorem extends_alloc (heap : Heap) {kind : CellKind} (cell : Cell kind) :
    heap.Extends (heap.alloc kind cell).2 where
  grows := heap.grows_alloc cell
  get_eq ref href := by
    apply heap.get_alloc_of_place_ne
    intro hplace
    injection hplace with hkind hindex
    subst hkind
    exact Nat.ne_of_lt href hindex

mutual

theorem Holds.mono (hext : heap.Extends later) {d : Datum} {value : Value}
    (h : heap.Holds d value) : later.Holds d value := by
  match d, h with
  | .primitive _ _, h => exact h
  | .array items, ⟨ref, hvalue, hlt, hitems⟩ =>
    refine ⟨ref, hvalue, Nat.lt_of_lt_of_le hlt (hext.grows _), ?_⟩
    rw [hext.get_eq ref hlt]
    exact HoldsAll.mono hext hitems
  | .object properties, ⟨ref, hvalue, hlt, hproperties⟩ =>
    refine ⟨ref, hvalue, Nat.lt_of_lt_of_le hlt (hext.grows _), ?_⟩
    rw [hext.get_eq ref hlt]
    exact HoldsUnder.mono hext hproperties
termination_by structural d

theorem HoldsAll.mono (hext : heap.Extends later) {items : List Datum} {values : List Value}
    (h : heap.HoldsAll items values) : later.HoldsAll items values := by
  match items, values, h with
  | [], [], _ => trivial
  | item :: items, value :: values, h => exact ⟨Holds.mono hext h.1, HoldsAll.mono hext h.2⟩
termination_by structural items

theorem HoldsUnder.mono (hext : heap.Extends later) {properties : List (String × Datum)}
    {entries : List (String × Value)} (h : heap.HoldsUnder properties entries) :
    later.HoldsUnder properties entries := by
  match properties, entries, h with
  | [], [], _ => trivial
  | (key, item) :: properties, entry :: entries, h =>
    exact ⟨h.1, Holds.mono hext h.2.1, HoldsUnder.mono hext h.2.2⟩
termination_by structural properties

end

/-- A new array holds what its items hold. -/
theorem HoldsAll.alloc {items : List Datum} {values : Array Value}
    (h : heap.HoldsAll items values.toList) :
    (heap.alloc .array values).2.Holds (.array items) (.array (heap.alloc .array values).1) := by
  refine ⟨_, rfl, ?_, ?_⟩
  · rw [alloc_fst, count_alloc, if_pos rfl]
    exact Nat.lt_succ_self _
  · rw [get_alloc, alloc_fst, if_pos rfl]
    exact h.mono (heap.extends_alloc _)

/-- A new object holds what its properties hold. -/
theorem HoldsUnder.alloc {properties : List (String × Datum)} {values : Dict Value}
    (h : heap.HoldsUnder properties values.entries) :
    (heap.alloc .object values).2.Holds (.object properties)
      (.object (heap.alloc .object values).1) := by
  refine ⟨_, rfl, ?_, ?_⟩
  · rw [alloc_fst, count_alloc, if_pos rfl]
    exact Nat.lt_succ_self _
  · rw [get_alloc, alloc_fst, if_pos rfl]
    exact h.mono (heap.extends_alloc _)

theorem HoldsUnder.keys {properties : List (String × Datum)} {entries : List (String × Value)}
    (h : heap.HoldsUnder properties entries) :
    entries.map Prod.fst = properties.map Prod.fst := by
  match properties, entries, h with
  | [], [], _ => rfl
  | (key, item) :: properties, entry :: entries, h =>
    rw [List.map_cons, List.map_cons, h.1, HoldsUnder.keys h.2.2]

/-! ### No container stands inside itself -/

theorem eq_of_container? {a b : Value} {place : Place} (ha : a.container? = some place)
    (hb : b.container? = some place) : a = b := by
  have hplace {kind : CellKind} {ref ref' : Ref kind} (h : some ref.place = some ref'.place) :
      ref = ref' := by
    cases ref
    cases ref'
    cases h
    rfl
  cases a with
  | array ref =>
    cases b with
    | array ref' => rw [hplace (ha.trans hb.symm)]
    | object ref' => cases ha.trans hb.symm
    | _ => cases hb
  | object ref =>
    cases b with
    | array ref' => cases ha.trans hb.symm
    | object ref' => rw [hplace (ha.trans hb.symm)]
    | _ => cases hb
  | _ => cases ha

/-- Arrays and objects inside each other, all of which hold more than some number of nodes. -/
structure Path (heap : Heap) (above : List Place) (size : Nat) : Prop where
  nodup : above.Nodup
  holds : ∀ place ∈ above, ∃ d value, value.container? = some place ∧ heap.Holds d value ∧
    size < d.size

namespace Path

variable {above : List Place} {size : Nat}

theorem nil (heap : Heap) (size : Nat) : heap.Path [] size :=
  ⟨List.nodup_nil, nofun⟩

theorem mono (h : heap.Path above size) {smaller : Nat} (hle : smaller ≤ size) :
    heap.Path above smaller where
  nodup := h.nodup
  holds place hmem := by
    obtain ⟨d, value, hplace, hholds, hlt⟩ := h.holds place hmem
    exact ⟨d, value, hplace, hholds, Nat.lt_of_le_of_lt hle hlt⟩

/-- A container is not one of those that it stands in: they hold more. -/
theorem notMem {d : Datum} (h : heap.Path above d.size) {value : Value} {place : Place}
    (hplace : value.container? = some place) (hd : heap.Holds d value) : place ∉ above := by
  intro hmem
  obtain ⟨d', value', hplace', hd', hlt⟩ := h.holds place hmem
  obtain rfl := eq_of_container? hplace hplace'
  obtain rfl := hd.unique hd'
  exact Nat.lt_irrefl _ hlt

theorem cons {d : Datum} (h : heap.Path above d.size) {value : Value} {place : Place}
    (hplace : value.container? = some place) (hd : heap.Holds d value) (hlt : size < d.size) :
    heap.Path (place :: above) size where
  nodup := List.nodup_cons.mpr ⟨h.notMem hplace hd, h.nodup⟩
  holds other hmem := by
    rcases List.mem_cons.mp hmem with rfl | hmem
    · exact ⟨d, value, hplace, hd, hlt⟩
    · exact (h.mono (Nat.le_of_lt hlt)).holds other hmem

/-- No more containers stand inside each other than there are. -/
theorem length_le (h : heap.Path above size) :
    above.length ≤ heap.count .array + heap.count .object := by
  let places := (List.range (heap.count .array)).map (Place.mk .array) ++
    (List.range (heap.count .object)).map (Place.mk .object)
  have hsubset : above ⊆ places := by
    intro place hmem
    obtain ⟨d, value, hplace, hd, -⟩ := h.holds place hmem
    cases d with
    | primitive plain hplain =>
      obtain rfl : value = plain := hd
      cases value <;> cases hplain <;> cases hplace
    | array items =>
      obtain ⟨ref, rfl, hlt, -⟩ := hd
      cases hplace
      exact List.mem_append_left _ (List.mem_map_of_mem (List.mem_range.mpr hlt))
    | object properties =>
      obtain ⟨ref, rfl, hlt, -⟩ := hd
      cases hplace
      exact List.mem_append_right _ (List.mem_map_of_mem (List.mem_range.mpr hlt))
  have hlength := (List.subperm_of_subset h.nodup hsubset).length_le
  simpa [places] using hlength

end Path

end Heap

end Script

end Doctest
