/-!
# Dictionaries in insertion order

Each key stands once, at the place where it was first inserted.
-/

namespace Doctest

/-- Keys with values, in the order in which the keys were first inserted. -/
@[ext]
structure Dict (α : Type) where
  entries : List (String × α)
  nodup_keys : (entries.map Prod.fst).Nodup
  deriving Repr

namespace Dict

variable {α : Type}

/-- The dictionary without keys. -/
def empty : Dict α :=
  ⟨[], List.nodup_nil⟩

/-- The value of the first entry with a key. -/
def lookup (key : String) : List (String × α) → Option α
  | [] => none
  | (k, v) :: rest => if k = key then some v else lookup key rest

/-- Gives the first entry with a key a new value, or adds an entry at the end. -/
def put (key : String) (value : α) : List (String × α) → List (String × α)
  | [] => [(key, value)]
  | (k, v) :: rest => if k = key then (k, value) :: rest else (k, v) :: put key value rest

/-- A key that was not there comes last; otherwise the keys stay as they are. -/
theorem keys_put (key : String) (value : α) (entries : List (String × α)) :
    (put key value entries).map Prod.fst =
      if key ∈ entries.map Prod.fst then entries.map Prod.fst
      else entries.map Prod.fst ++ [key] := by
  induction entries with
  | nil => rfl
  | cons first rest ih =>
    by_cases hkey : first.1 = key
    · simp [put, hkey]
    · by_cases hmem : key ∈ rest.map Prod.fst <;> simp_all [put, Ne.symm hkey]

theorem nodup_keys_put (key : String) (value : α) {entries : List (String × α)}
    (h : (entries.map Prod.fst).Nodup) : ((put key value entries).map Prod.fst).Nodup := by
  rw [keys_put]
  split
  case isTrue => exact h
  case isFalse hmem =>
    refine List.nodup_append.mpr ⟨h, by simp, fun other hother last hlast => ?_⟩
    obtain rfl := List.mem_singleton.mp hlast
    rintro rfl
    exact hmem hother

/-- The value of a key. -/
def get? (d : Dict α) (key : String) : Option α :=
  lookup key d.entries

/-- Whether a key is there. -/
def contains (d : Dict α) (key : String) : Bool :=
  (d.get? key).isSome

/-- The dictionary with a key set to a value; a key that was there keeps its place. -/
def insert (d : Dict α) (key : String) (value : α) : Dict α :=
  ⟨put key value d.entries, nodup_keys_put key value d.nodup_keys⟩

/-- The dictionary that results from inserting pairs one after the other. -/
def ofList (pairs : List (String × α)) : Dict α :=
  pairs.foldl (fun d pair => d.insert pair.1 pair.2) empty

/-- The keys in their order. -/
def keys (d : Dict α) : List String :=
  d.entries.map Prod.fst

/-- The values in the order of their keys. -/
def values (d : Dict α) : List α :=
  d.entries.map Prod.snd

/-- The number of keys. -/
def size (d : Dict α) : Nat :=
  d.entries.length

/-- Whether there is no key. -/
def isEmpty (d : Dict α) : Bool :=
  d.entries.isEmpty

end Dict

end Doctest
