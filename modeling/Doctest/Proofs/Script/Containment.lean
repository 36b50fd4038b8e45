import Doctest.Proofs.Script.Cells
import Doctest.Script.Eval

/-!
# What values refer to

Values, and with them all contents of cells, refer to cells in some area. A heap is closed if its
cells refer to cells of the heap only; some cells may be set apart, to which no other cell refers.
-/

namespace Doctest

/-- The same keys in the same order, with other values. -/
def Dict.mapValues {α β : Type} (f : α → β) (d : Dict α) : Dict β :=
  ⟨d.entries.map fun entry => (entry.1, f entry.2), by
    rw [List.map_map]
    exact d.nodup_keys⟩

namespace Dict

variable {α : Type} {p : α → Prop} {d : Dict α}

/-- Something that holds of all values of a dictionary. -/
def All (p : α → Prop) (d : Dict α) : Prop :=
  ∀ entry ∈ d.entries, p entry.2

theorem all_empty : All p (empty : Dict α) := by
  simp [All, empty]

/-- A dictionary with a new value has that value and old ones. -/
theorem eq_or_mem_of_mem_put {key : String} {value : α} {entries : List (String × α)}
    {entry : String × α} (h : entry ∈ put key value entries) :
    entry.2 = value ∨ entry ∈ entries := by
  induction entries with
  | nil => exact .inl (congrArg Prod.snd (List.mem_singleton.mp h))
  | cons first rest ih =>
    rw [put] at h
    split at h
    · rcases List.mem_cons.mp h with rfl | h
      · exact .inl rfl
      · exact .inr (List.mem_cons_of_mem _ h)
    · rcases List.mem_cons.mp h with rfl | h
      · exact .inr List.mem_cons_self
      · exact (ih h).imp_right (List.mem_cons_of_mem _)

theorem All.insert (h : d.All p) (key : String) {value : α} (hvalue : p value) :
    (d.insert key value).All p := by
  intro entry hmem
  rcases eq_or_mem_of_mem_put hmem with heq | hmem
  · rwa [heq]
  · exact h entry hmem

theorem all_ofList {pairs : List (String × α)} (h : ∀ pair ∈ pairs, p pair.2) :
    (ofList pairs).All p := by
  have hfold (d : Dict α) (hd : d.All p) :
      (pairs.foldl (fun d pair => d.insert pair.1 pair.2) d).All p := by
    induction pairs generalizing d with
    | nil => exact hd
    | cons pair rest ih =>
      exact ih (fun pair hmem => h pair (List.mem_cons_of_mem _ hmem)) _
        (hd.insert pair.1 (h pair List.mem_cons_self))
  exact hfold empty all_empty

theorem mem_of_lookup {key : String} {entries : List (String × α)} {value : α}
    (h : lookup key entries = some value) : (key, value) ∈ entries := by
  induction entries with
  | nil => cases h
  | cons first rest ih =>
    rw [lookup] at h
    split at h
    case isTrue hkey =>
      cases h
      exact hkey ▸ List.mem_cons_self
    case isFalse => exact List.mem_cons_of_mem _ (ih h)

theorem All.get? (h : d.All p) {key : String} {value : α} (hget : d.get? key = some value) :
    p value :=
  h _ (mem_of_lookup hget)

theorem get?_insert (d : Dict α) (key : String) (value : α) :
    (d.insert key value).get? key = some value := by
  have hput (entries : List (String × α)) : lookup key (put key value entries) = some value := by
    induction entries with
    | nil => exact if_pos rfl
    | cons entry entries ih =>
      rw [put]
      split
      · next hkey => exact if_pos hkey
      · next hkey => rw [lookup, if_neg hkey, ih]
  exact hput d.entries

theorem get?_insert_of_ne (d : Dict α) {key other : String} (value : α) (hne : key ≠ other) :
    (d.insert key value).get? other = d.get? other := by
  have hput (entries : List (String × α)) :
      lookup other (put key value entries) = lookup other entries := by
    induction entries with
    | nil => exact if_neg hne
    | cons entry entries ih =>
      rw [put]
      split
      · next hkey => rw [lookup, lookup, if_neg (hkey ▸ hne), if_neg (hkey ▸ hne)]
      · rw [lookup, lookup, ih]
  exact hput d.entries

/-- A key that was there is still there. -/
theorem contains_insert {key other : String} (value : α) (h : d.contains other = true) :
    (d.insert key value).contains other = true := by
  by_cases hkey : key = other
  · rw [hkey, contains, get?_insert, Option.isSome_some]
  · rwa [contains, get?_insert_of_ne _ _ hkey]

end Dict

namespace Script

section Within

variable (area : Place → Prop)

/-- A value is no reference, or one to a cell of an area. -/
def Value.Within : Value → Prop
  | .array cell => area cell.place
  | .object cell => area cell.place
  | .error cell => area cell.place
  | .callable cell => area cell.place
  | .promise cell => area cell.place
  | .undefined | .null | .bool _ | .number _ | .string _ => True

/-- All frames of a scope are cells of an area. -/
def Scope.Within (scope : Scope) : Prop :=
  ∀ frame ∈ scope.chain, area frame.place

/-- What a built-in function is bound to is a cell of an area, if it is one. -/
def Builtin.Within : Builtin → Prop
  | .resolver target _ => area target.place
  | .arrayMethod receiver _ => area receiver.place
  | .promiseMethod receiver _ => area receiver.place
  | _ => True

def Callable.Within : Callable → Prop
  | .closure made => made.scope.Within area
  | .builtin function => function.Within area

def Reaction.Within : Reaction → Prop
  | .unresolved | .running => True
  | .adopt source => area source.place
  | .andThen source onFulfilled onRejected =>
    area source.place ∧ (∀ handler ∈ onFulfilled, handler.Within area) ∧
      ∀ handler ∈ onRejected, handler.Within area
  | .all items => ∀ item ∈ items, item.Within area

def PromiseState.Within : PromiseState → Prop
  | .pending reaction => reaction.Within area
  | .fulfilled value => value.Within area
  | .rejected reason => reason.Within area

def Binding.Within (binding : Binding) : Prop :=
  binding.value.Within area

/-- All that a cell refers to are cells of an area. -/
def Cell.Within : {kind : CellKind} → Cell kind → Prop
  | .array, items => ∀ item ∈ (items : Array Value), item.Within area
  | .object, properties => Dict.All (Value.Within area) properties
  | .error, error => Dict.All (Value.Within area) (ErrorObject.properties error)
  | .callable, callable => Callable.Within area callable
  | .promise, state => PromiseState.Within area state
  | .frame, bindings => Dict.All (Binding.Within area) bindings

end Within

section Mono

variable {area wider : Place → Prop} (hsub : ∀ place, area place → wider place)
include hsub

theorem Value.Within.mono {value : Value} (h : value.Within area) : value.Within wider := by
  cases value <;> first | trivial | exact hsub _ h

theorem Scope.Within.mono {scope : Scope} (h : scope.Within area) : scope.Within wider :=
  fun frame hmem => hsub _ (h frame hmem)

theorem Builtin.Within.mono {function : Builtin} (h : function.Within area) :
    function.Within wider := by
  cases function <;> first | trivial | exact hsub _ h

theorem Callable.Within.mono {callable : Callable} (h : callable.Within area) :
    callable.Within wider := by
  cases callable with
  | closure made => exact Scope.Within.mono hsub h
  | builtin function => exact Builtin.Within.mono hsub h

theorem Reaction.Within.mono {reaction : Reaction} (h : reaction.Within area) :
    reaction.Within wider := by
  cases reaction with
  | unresolved | running => trivial
  | adopt source => exact hsub _ h
  | andThen source onFulfilled onRejected =>
    obtain ⟨hsource, hfulfilled, hrejected⟩ := h
    exact ⟨hsub _ hsource, fun handler hmem => (hfulfilled handler hmem).mono hsub,
      fun handler hmem => (hrejected handler hmem).mono hsub⟩
  | all items => exact fun item hmem => (h item hmem).mono hsub

theorem PromiseState.Within.mono {state : PromiseState} (h : state.Within area) :
    state.Within wider := by
  cases state with
  | pending reaction => exact Reaction.Within.mono hsub h
  | fulfilled value => exact Value.Within.mono hsub h
  | rejected reason => exact Value.Within.mono hsub h

theorem Cell.Within.mono {kind : CellKind} {cell : Cell kind} (h : Cell.Within area cell) :
    Cell.Within wider cell := by
  cases kind with
  | array => exact fun item hmem => Value.Within.mono hsub (h item hmem)
  | object => exact fun entry hmem => Value.Within.mono hsub (h entry hmem)
  | error => exact fun entry hmem => Value.Within.mono hsub (h entry hmem)
  | callable => exact Callable.Within.mono hsub h
  | promise => exact PromiseState.Within.mono hsub h
  | frame => exact fun entry hmem => Value.Within.mono hsub (h entry hmem)

end Mono

theorem Value.Within.of_isPrimitive {area : Place → Prop} {value : Value}
    (h : value.isPrimitive = true) : value.Within area := by
  cases value <;> trivial

namespace Heap

variable {apart : Place → Prop} {heap later : Heap}

/-- The cells of a heap but for those that are apart. -/
def Has (apart : Place → Prop) (heap : Heap) (place : Place) : Prop :=
  place.index < heap.count place.kind ∧ ¬ apart place

/-- The cells of a heap that are not apart refer to cells that are not apart. -/
structure Closed (apart : Place → Prop) (heap : Heap) : Prop where
  within : ∀ {kind : CellKind} (ref : Ref kind), ¬ apart ref.place →
    Cell.Within (heap.Has apart) (heap.get ref)
  apart_lt : ∀ place, apart place → place.index < heap.count place.kind

theorem Grows.has (h : heap.Grows later) (place : Place) (hhas : heap.Has apart place) :
    later.Has apart place :=
  ⟨Nat.lt_of_lt_of_le hhas.1 (h _), hhas.2⟩

/-- A cell that there was is another one than the one made next. -/
theorem Has.beside {place : Place} (h : heap.Has (fun _ => False) place) {kind : CellKind}
    (cell : Cell kind) :
    (heap.alloc kind cell).2.Has (· = ⟨kind, heap.count kind⟩) place := by
  refine ⟨Nat.lt_of_lt_of_le h.1 (heap.grows_alloc cell _), ?_⟩
  rintro rfl
  exact Nat.lt_irrefl _ h.1

/-- No cell that there was refers to the one that is made next, whatever that holds. -/
theorem Closed.alloc_apart (h : heap.Closed fun _ => False) {kind : CellKind} (cell : Cell kind) :
    (heap.alloc kind cell).2.Closed (· = ⟨kind, heap.count kind⟩) where
  within ref href := by
    rw [get_alloc_of_place_ne heap cell ref href]
    exact (h.within ref id).mono fun _ hhas => hhas.beside cell
  apart_lt place hplace := by
    rw [hplace, count_alloc, if_pos rfl]
    exact Nat.lt_succ_self _

end Heap

/-- A value of a heap: one that refers to none of the cells that are apart. -/
def Value.Of (apart : Place → Prop) (heap : Heap) (value : Value) : Prop :=
  value.Within (heap.Has apart)

end Script

end Doctest
