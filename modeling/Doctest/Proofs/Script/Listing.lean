import Doctest.Proofs.Number.Digits
import Doctest.Proofs.Script.AccessPaths
import Doctest.Proofs.Script.Making
import Doctest.Script.Library.Call

/-!
# Listed properties

The properties of a value that are listed, and whether reading one gives what is listed. An error
has two fields that are no properties among the others, and they hide properties of their names.
-/

namespace Doctest.Script

/-! ### Indices as keys -/

/-- An index is read from its digits if it fits into sixty-four bits. -/
theorem indexOfKey?_toString (index : Nat) :
    indexOfKey? (toString index) = if index < Nat.pow 2 64 then some index else none := by
  have hdigits : (Nat.toDigits 10 index).all Char.isDigit = true :=
    List.all_eq_true.mpr (Number.isDigit_toDigits index)
  have hzero : ¬ (1 < (Nat.toDigits 10 index).length ∧
      (Nat.toDigits 10 index).head? = some '0') := by
    rintro ⟨hlength, hhead⟩
    rcases Nat.eq_zero_or_pos index with rfl | hpos
    · simp at hlength
    · exact Number.head?_toDigits_ne hpos hhead
  have hnone : ((Nat.toDigits 10 index).isEmpty || !(Nat.toDigits 10 index).all Char.isDigit ||
      (1 < (Nat.toDigits 10 index).length && (Nat.toDigits 10 index).head? = some '0')) =
        false := by
    simpa [hdigits, Nat.toDigits_ne_nil] using hzero
  rw [indexOfKey?, Nat.toString_eq_repr, Nat.toList_repr]
  rw [hnone, if_neg nofun]
  exact Number.ofDigitsBelow?_toDigits (by decide) index

/-- A key is an index exactly if it is written as that is, and fits into sixty-four bits. -/
theorem indexOfKey?_eq_some_iff {key : String} {index : Nat} :
    indexOfKey? key = some index ↔ key = toString index ∧ index < Nat.pow 2 64 := by
  constructor
  · intro h
    rw [indexOfKey?] at h
    split_ifs at h with hnone
    simp only [Bool.or_eq_true, Bool.and_eq_true, Bool.not_eq_true', decide_eq_true_eq, not_or,
      not_and, List.isEmpty_iff, Bool.not_eq_false, List.all_eq_true] at hnone
    obtain ⟨⟨hsome, hdigits⟩, hzero⟩ := hnone
    have hread := Number.foldlM_below hdigits (show 0 < Nat.pow 2 64 by decide)
    have hmade := hread.symm.trans h
    split_ifs at hmade with hlt
    obtain rfl := Option.some.inj hmade
    refine ⟨?_, hlt⟩
    rw [← String.toList_inj, Nat.toString_eq_repr, Nat.toList_repr,
      Number.toDigits_ofDigitChars hsome hdigits hzero]
  · rintro ⟨rfl, hlt⟩
    rw [indexOfKey?_toString, if_pos hlt]

/-- A name with a character that is no digit is no index. -/
theorem ne_toString {name : String} (hname : name.toList.all Char.isDigit = false) (index : Nat) :
    name ≠ toString index := by
  rintro rfl
  rw [Nat.toString_eq_repr, Nat.toList_repr, List.all_eq_false] at hname
  obtain ⟨c, hmem, hc⟩ := hname
  exact hc (Number.isDigit_toDigits index c hmem)

theorem ArrayMethod.name_ne_toString (method : ArrayMethod) (index : Nat) :
    method.name ≠ toString index :=
  ne_toString (by cases method <;> decide) index

theorem StringMethod.name_ne_toString (method : StringMethod) (index : Nat) :
    method.name ≠ toString index :=
  ne_toString (by cases method <;> decide) index

/-! ### Listing and reading -/

namespace Heap

variable (heap : Heap)

/-- A property that is listed. -/
inductive Listed : Value → String → Value → Prop
  | property {ref : Ref .object} {key : String} {value : Value}
    (h : (heap.get ref).get? key = some value) : Listed (.object ref) key value
  | item {ref : Ref .array} {index : Nat} {value : Value}
    (h : (heap.get ref)[index]? = some value) : Listed (.array ref) (toString index) value
  | character {s : String} {index : Nat} {c : Char} (h : s.toList[index]? = some c) :
    Listed (.string s) (toString index) (.string (String.singleton c))
  | extra {ref : Ref .error} {key : String} {value : Value}
    (h : (heap.get ref).properties.get? key = some value) : Listed (.error ref) key value

/-- A property that is not read as it is listed: one that a field of an error hides, or an item
whose index does not fit into sixty-four bits. -/
inductive Hides : Value → String → Value → Prop
  | name {ref : Ref .error} {value : Value} (h : value ≠ .string (heap.get ref).name) :
    Hides (.error ref) "name" value
  | message {ref : Ref .error} {value : Value} (h : value ≠ .string (heap.get ref).message) :
    Hides (.error ref) "message" value
  | item (ref : Ref .array) {key : String} {value : Value} {index : Nat}
    (hkey : key = toString index) (hindex : Nat.pow 2 64 ≤ index) (h : value ≠ .undefined) :
    Hides (.array ref) key value
  | character (s : String) {key : String} {value : Value} {index : Nat}
    (hkey : key = toString index) (hindex : Nat.pow 2 64 ≤ index) (h : value ≠ .undefined) :
    Hides (.string s) key value

end Heap

namespace Eval

/-- There is no method without a name. -/
theorem method?_of_ne {α : Type} {all : List α} {name : α → String} {bind : α → Builtin}
    {key : String} (h : ∀ method, name method ≠ key) :
    method? all name bind key = pure .undefined := by
  have hnone : all.find? (name · = key) = none :=
    List.find?_eq_none.mpr fun method _ => by simpa using h method
  rw [method?, hnone]

variable (machine : Machine)

theorem property_item (ref : Ref .array) (index : Nat) :
    property (.array ref) (toString index) machine =
      (.ok (if index < Nat.pow 2 64 then (machine.heap.get ref).getD index .undefined
          else .undefined),
        machine) := by
  dsimp only [property]
  rw [if_neg (ne_toString (by decide) index).symm, indexOfKey?_toString]
  by_cases hlt : index < Nat.pow 2 64
  · rw [if_pos hlt, if_pos hlt]
    rfl
  · rw [if_neg hlt, if_neg hlt]
    dsimp only
    rw [method?_of_ne fun method => method.name_ne_toString index]
    rfl

theorem property_character (s : String) (index : Nat) :
    property (.string s) (toString index) machine =
      (.ok (if index < Nat.pow 2 64 then
        (s.toList[index]?.map fun c => Value.string (String.singleton c)).getD .undefined
        else .undefined), machine) := by
  dsimp only [property]
  rw [if_neg (ne_toString (by decide) index).symm, indexOfKey?_toString]
  by_cases hlt : index < Nat.pow 2 64
  · rw [if_pos hlt, if_pos hlt]
    rfl
  · rw [if_neg hlt, if_neg hlt]
    dsimp only
    rw [method?_of_ne fun method => method.name_ne_toString index]
    rfl

theorem property_object (ref : Ref .object) (key : String) :
    property (.object ref) key machine =
      (.ok (((machine.heap.get ref).get? key).getD .undefined), machine) :=
  rfl

/-- Of an error, its fields come before its other properties. -/
theorem property_error (ref : Ref .error) (key : String) :
    property (.error ref) key machine =
      (.ok (if key = "name" then .string (machine.heap.get ref).name
        else if key = "message" then .string (machine.heap.get ref).message
        else ((machine.heap.get ref).properties.get? key).getD .undefined), machine) := by
  dsimp only [property]
  rw [bind_apply]
  change (if key = "name" then _ else _ : Eval Value) machine = _
  split
  · rfl
  split <;> rfl

end Eval

/-! ### What hides properties -/

theorem le_of_toString_eq {index other : Nat} (h : toString index = toString other)
    (hle : Nat.pow 2 64 ≤ other) : Nat.pow 2 64 ≤ index := by
  have hread := indexOfKey?_toString index
  rw [h, indexOfKey?_toString, if_neg (Nat.not_lt.mpr hle)] at hread
  by_contra hlt
  rw [if_pos (Nat.not_le.mp hlt)] at hread
  cases hread

namespace Heap

variable {heap : Heap} {value : Value}

theorem hides_item_iff {ref : Ref .array} {index : Nat} :
    heap.Hides (.array ref) (toString index) value ↔
      Nat.pow 2 64 ≤ index ∧ value ≠ .undefined := by
  constructor
  · intro h
    cases h with
    | item _ hkey hindex hne => exact ⟨le_of_toString_eq hkey hindex, hne⟩
  · rintro ⟨hindex, hne⟩
    exact .item ref rfl hindex hne

theorem hides_character_iff {s : String} {index : Nat} :
    heap.Hides (.string s) (toString index) value ↔
      Nat.pow 2 64 ≤ index ∧ value ≠ .undefined := by
  constructor
  · intro h
    cases h with
    | character _ hkey hindex hne => exact ⟨le_of_toString_eq hkey hindex, hne⟩
  · rintro ⟨hindex, hne⟩
    exact .character s rfl hindex hne

theorem hides_error_iff {ref : Ref .error} {key : String} :
    heap.Hides (.error ref) key value ↔
      (key = "name" ∧ value ≠ .string (heap.get ref).name) ∨
        (key = "message" ∧ value ≠ .string (heap.get ref).message) := by
  constructor
  · intro h
    cases h with
    | name h => exact .inl ⟨rfl, h⟩
    | message h => exact .inr ⟨rfl, h⟩
  · rintro (⟨rfl, h⟩ | ⟨rfl, h⟩)
    · exact .name h
    · exact .message h

/-- Of an error, what is read under a key is some value exactly if that is not hidden, where it is
what the error has among its properties or under the name of a field. -/
theorem property_error_iff {machine : Machine} {ref : Ref .error} {key : String}
    (h : ((machine.heap.get ref).properties.get? key).getD .undefined = value) :
    Eval.property (.error ref) key machine = (.ok value, machine) ↔
      ¬ machine.heap.Hides (.error ref) key value := by
  rw [Eval.property_error, h, hides_error_iff, Prod.mk.injEq, Except.ok.injEq, and_iff_left rfl]
  by_cases hname : key = "name"
  · subst hname
    simp [eq_comm]
  by_cases hmessage : key = "message"
  · subst hmessage
    simp [eq_comm]
  · simp [hname, hmessage]

/-- What is read is what is listed, exactly if nothing hides it. -/
theorem Listed.property_iff {machine : Machine} {target : Value} {key : String}
    (h : machine.heap.Listed target key value) :
    Eval.property target key machine = (.ok value, machine) ↔
      ¬ machine.heap.Hides target key value := by
  cases h with
  | property h =>
    rw [Eval.property_object, h]
    exact iff_of_true rfl nofun
  | @item ref index value h =>
    rw [Eval.property_item, hides_item_iff, Array.getD_eq_getD_getElem?, h, Option.getD_some,
      Prod.mk.injEq, Except.ok.injEq, and_iff_left rfl]
    by_cases hlt : index < Nat.pow 2 64
    · rw [if_pos hlt]
      exact iff_of_true rfl fun h => Nat.not_le.mpr hlt h.1
    · rw [if_neg hlt, and_iff_right (Nat.not_lt.mp hlt), not_not, eq_comm]
  | @character s index c h =>
    rw [Eval.property_character, hides_character_iff, h, Prod.mk.injEq, Except.ok.injEq,
      and_iff_left rfl]
    by_cases hlt : index < Nat.pow 2 64
    · rw [if_pos hlt]
      exact iff_of_true rfl fun h => Nat.not_le.mpr hlt h.1
    · rw [if_neg hlt, and_iff_right (Nat.not_lt.mp hlt), not_not, eq_comm]
  | @extra ref key value h =>
    apply property_error_iff
    rw [h, Option.getD_some]

end Heap

/-! ### Lists of pairs -/

namespace Heap

variable {heap later : Heap}

/-- A value is an array of a key and a value. -/
def IsPair (heap : Heap) (pair : String × Value) (item : Value) : Prop :=
  ∃ ref : Ref .array, item = .array ref ∧ ref.index < heap.count .array ∧
    heap.get ref = #[.string pair.1, pair.2]

theorem IsPair.mono {pair : String × Value} {item : Value} (h : heap.IsPair pair item)
    (hextends : heap.Extends later) : later.IsPair pair item := by
  obtain ⟨ref, hitem, hlt, hget⟩ := h
  exact ⟨ref, hitem, Nat.lt_of_lt_of_le hlt (hextends.grows _),
    (hextends.get_eq ref hlt).trans hget⟩

theorem IsPair.unique {pair other : String × Value} {item : Value} (h : heap.IsPair pair item)
    (hother : heap.IsPair other item) : pair = other := by
  obtain ⟨ref, rfl, -, hget⟩ := h
  obtain ⟨_, hsame, -, hother⟩ := hother
  cases hsame
  rw [hget] at hother
  simpa [Prod.ext_iff] using hother

/-- A value is an array with a pair of a key and a value among its items. -/
def Lists (heap : Heap) (found : Value) (key : String) (value : Value) : Prop :=
  ∃ (list : Ref .array) (item : Value), found = .array list ∧ item ∈ (heap.get list).toList ∧
    heap.IsPair (key, value) item

/-- What is listed is there, and stays listed while cells are only added. -/
theorem Listed.mono {target value : Value} {key : String} (h : heap.Listed target key value)
    (hextends : heap.Extends later) : later.Listed target key value := by
  have hsame {kind : CellKind} {ref : Ref kind} (hne : heap.get ref ≠ Cell.missing kind) :
      later.get ref = heap.get ref :=
    hextends.get_eq ref (index_lt_of_get_ne hne)
  cases h with
  | @property ref key value h =>
    have hne : heap.get ref ≠ Cell.missing .object := fun hmissing => by
      rw [hmissing] at h
      cases h
    exact .property (hsame hne ▸ h)
  | @item ref index value h =>
    have hne : heap.get ref ≠ Cell.missing .array := fun hmissing => by
      rw [hmissing] at h
      cases h
    exact .item (hsame hne ▸ h)
  | character h => exact .character h
  | @extra ref key value h =>
    have hne : heap.get ref ≠ Cell.missing .error := fun hmissing => by
      rw [hmissing] at h
      cases h
    exact .extra (hsame hne ▸ h)

end Heap

namespace Library

variable {start middle after : Machine} {target found value : Value} {key : String}

theorem mem_indexed {items : List Value} {pair : String × Value} (h : pair ∈ indexed items) :
    ∃ index : Nat, pair.1 = toString index ∧ items[index]? = some pair.2 := by
  obtain ⟨⟨item, index⟩, hmem, rfl⟩ := List.mem_map.mp h
  exact ⟨index, rfl, List.mem_zipIdx_iff_getElem?.mp hmem⟩

/-- The properties that a value has are listed. -/
theorem ownProperties_run {pairs : List (String × Value)}
    (h : ownProperties target start = (.ok pairs, middle)) :
    middle = start ∧ ∀ pair ∈ pairs, start.heap.Listed target pair.1 pair.2 := by
  cases target with
  | undefined | null => cases h
  | bool | number | callable | promise =>
    cases h
    exact ⟨rfl, nofun⟩
  | object ref =>
    cases h
    exact ⟨rfl, fun pair hmem => .property (Dict.get?_eq_some_iff.mpr hmem)⟩
  | error ref =>
    cases h
    exact ⟨rfl, fun pair hmem => .extra (Dict.get?_eq_some_iff.mpr hmem)⟩
  | array ref =>
    cases h
    refine ⟨rfl, fun pair hmem => ?_⟩
    obtain ⟨index, hkey, hitem⟩ := mem_indexed hmem
    rw [Array.getElem?_toList] at hitem
    rw [hkey]
    exact .item hitem
  | string s =>
    cases h
    refine ⟨rfl, fun pair hmem => ?_⟩
    obtain ⟨index, hkey, hitem⟩ := mem_indexed hmem
    rw [List.getElem?_map, Option.map_eq_some_iff] at hitem
    obtain ⟨c, hc, hvalue⟩ := hitem
    rw [hkey, ← hvalue]
    exact .character hc

/-- The entries of a value are pairs of its properties. -/
theorem entries_makes {pairs : List (String × Value)}
    (h : ownProperties target start = (.ok pairs, start)) :
    Eval.Makes (fun heap found => ∃ list : Ref .array, found = .array list ∧
      ∀ item ∈ (heap.get list).toList, ∃ pair ∈ pairs, heap.IsPair pair item) start
        (entries target) := by
  have hpair (pair : String × Value) (middle : Machine) :
      Eval.Makes (fun heap => heap.IsPair pair) middle
        (Eval.newArray #[.string pair.1, pair.2]) :=
    .newArrayOf _
  have hlisted : Eval.Makes (fun _ found => found = pairs) start (ownProperties target) :=
    ⟨pairs, start, h, .refl _, rfl, rfl⟩
  refine hlisted.bind fun found middle _ hfound => ?_
  subst hfound
  refine Eval.Makes.bind (.mapM (fun pair _ => hpair pair) fun _ _ _ _ hextends hitem =>
    hitem.mono hextends) fun items last _ hitems => ?_
  refine (Eval.Makes.newArrayOf items.toArray).mono fun heap hextends found hfound => ?_
  obtain ⟨list, hlist, -, hget⟩ := hfound
  refine ⟨list, hlist, fun item hmem => ?_⟩
  rw [hget, List.toList_toArray] at hmem
  obtain ⟨pair, hpair, hitem⟩ := hitems item hmem
  exact ⟨pair, hpair, hitem.mono hextends⟩

/-- What the entries of a value tell is listed. -/
theorem listed_of_entries (h : entries target start = (.ok found, after))
    (hlists : after.heap.Lists found key value) : after.heap.Listed target key value := by
  cases hown : ownProperties target start with
  | mk outcome middle =>
    cases outcome with
    | error signal =>
      rw [entries, Eval.bind_apply, hown] at h
      cases h
    | ok pairs =>
      obtain ⟨rfl, hlisted⟩ := ownProperties_run hown
      obtain ⟨_, _, hrun, hextends, -, list, rfl, hitems⟩ := entries_makes hown
      rw [h] at hrun
      cases hrun
      obtain ⟨_, item, hsame, hmem, hpair⟩ := hlists
      cases hsame
      obtain ⟨pair, hpairs, hitem⟩ := hitems item hmem
      obtain rfl := hpair.unique hitem
      exact (hlisted _ hpairs).mono hextends

/-- **Listing and reading.** A pair that the entries of a value list is what is read, exactly if no
field of an error hides it and its index, if it has one, fits into sixty-four bits. -/
theorem property_of_entries_iff (h : entries target start = (.ok found, after))
    (hlists : after.heap.Lists found key value) :
    Eval.property target key after = (.ok value, after) ↔ ¬ after.heap.Hides target key value :=
  (listed_of_entries h hlists).property_iff

theorem messageOf_run {arg : Option Value} {message : String}
    (h : messageOf arg start = (.ok message, middle)) : middle = start := by
  unfold messageOf at h
  split at h
  case h_1 | h_2 =>
    cases h
    rfl
  case h_3 value _ =>
    rw [Eval.text, Eval.ofHeap?_apply] at h
    split at h <;> cases h
    rfl

/-- **Options of errors.** A new error reads a property of its options as these do, exactly if no
field of the error hides it. -/
theorem property_of_newErrorOf_iff {kind : ErrorKind} {args : List Value} {options : Ref .object}
    {error : Value} (hoptions : args[1]? = some (.object options))
    (h : newErrorOf kind args start = (.ok error, after))
    (hread : Eval.property (.object options) key after = (.ok value, after)) :
    Eval.property error key after = (.ok value, after) ↔ ¬ after.heap.Hides error key value := by
  rw [newErrorOf, Eval.bind_apply] at h
  cases hmessage : messageOf args[0]? start with
  | mk outcome middle =>
    rw [hmessage] at h
    cases outcome with
    | error signal => cases h
    | ok message =>
      obtain rfl := messageOf_run hmessage
      rw [hoptions] at h
      cases h
      let cell : Cell .error := ErrorObject.mk kind.name message (middle.heap.get options)
      have hnew :
          (middle.heap.alloc .error cell).2.get (middle.heap.alloc .error cell).1 = cell := by
        rw [Heap.alloc_fst, Heap.get_alloc, if_pos rfl]
      have hold : (middle.heap.alloc .error cell).2.get options = middle.heap.get options :=
        Heap.get_alloc_of_ne _ _ _ (by decide)
      apply Heap.property_error_iff
      have hvalue : ((middle.heap.get options).get? key).getD .undefined = value := by
        rw [← hold]
        exact Except.ok.inj (Prod.mk.inj hread).1
      rw [← hvalue]
      exact congrArg (fun made : ErrorObject => (made.properties.get? key).getD .undefined) hnew

end Library

end Doctest.Script
