import Doctest.Proofs.Script.Accounts
import Doctest.Proofs.Script.Cells
import Mathlib.Data.List.Perm.Subperm
import Mathlib.Data.List.Nodup

/-!
# What is shown of values with circles

Showing a value comes to an end whatever stands within itself. A container is marked where it stands
within itself, and only there; elsewhere all of it is shown, however often it was shown before.
-/

namespace Doctest.Script

/-! ### Showing as an account -/

/-- The cell that a value refers to, if it is one within which other values are shown. -/
def Value.holder? : Value → Option Place
  | .array ref => some ref.place
  | .object ref => some ref.place
  | .error ref => some ref.place
  | .promise ref => some ref.place
  | _ => none

/-- Keys with texts between braces. -/
def shownUnder (keys : List String) (texts : List (List Char)) : List Char :=
  enclosed '\x7b' '\x7d' (keys.zipWith (fun key text => keyText key ++ [':', ' '] ++ text) texts)

/-- What is shown in place of a container that stands within itself. -/
def circularMark : List Char :=
  "[Circular]".toList

/-- The text of an error before its properties. -/
def ErrorObject.shownHead (error : ErrorObject) : List Char :=
  '[' :: error.name.toList ++
    (if error.message.isEmpty then [] else ": ".toList ++ error.message.toList) ++ [']']

/-- The value that a promise is settled with, if it is settled. -/
def PromiseState.parts : PromiseState → List Value
  | .pending _ => []
  | .fulfilled value => [value]
  | .rejected reason => [reason]

/-- The text of how a promise stands, around the text of what it is settled with. -/
def PromiseState.around : PromiseState → List (List Char) → List Char
  | .pending _, _ => "<pending>".toList
  | .fulfilled _, texts => texts.flatten
  | .rejected _, texts => "<rejected> ".toList ++ texts.flatten

namespace Heap

variable (heap : Heap)

/-- The values that are shown directly within a value. -/
def shownParts : Value → List Value
  | .array ref => (heap.get ref).toList
  | .object ref => (heap.get ref).values
  | .error ref => (heap.get ref).properties.values
  | .promise ref => (heap.get ref).parts
  | _ => []

/-- The text of a value around the texts of what is shown within it. -/
def shownAround (value : Value) (texts : List (List Char)) : List Char :=
  match value with
  | .undefined => "undefined".toList
  | .null => "null".toList
  | .bool b => (toString b).toList
  | .number x => numberText x
  | .string s => quoted s.toList
  | .array _ => enclosed '[' ']' texts
  | .object ref => shownUnder (heap.get ref).keys texts
  | .error ref =>
    let error := heap.get ref
    error.shownHead ++
      if error.properties.isEmpty then [] else ' ' :: shownUnder error.properties.keys texts
  | .callable ref => (heap.get ref).text
  | .promise ref => "Promise \x7b ".toList ++ (heap.get ref).around texts ++ [' ', '\x7d']

/-- What is shown of values, taken for trees. -/
def drawing : Account (List Char) :=
  ⟨heap.shownParts, heap.shownAround⟩

end Heap

theorem shownProperties_eq (shown : Value → List Char) (properties : Dict Value) :
    shownProperties shown properties =
      shownUnder properties.keys (properties.values.map shown) := by
  rw [shownProperties, shownUnder, Dict.keys, Dict.values, List.map_map, List.zipWith_map,
    List.zipWith_self]
  rfl

theorem shownState_eq (shown : Value → List Char) (state : PromiseState) :
    (match state with
      | .pending _ => "<pending>".toList
      | .fulfilled value => shown value
      | .rejected reason => "<rejected> ".toList ++ shown reason) =
      state.around (state.parts.map shown) := by
  cases state with
  | pending reaction => rfl
  | fulfilled value => exact (List.append_nil _).symm
  | rejected reason => exact congrArg ("<rejected> ".toList ++ ·) (List.append_nil _).symm

variable {heap : Heap}

/-- A container that stands within itself is marked. -/
theorem inspectWithin_of_mem (levels : Nat) {above : List Place} {value : Value} {place : Place}
    (hplace : value.holder? = some place) (hmem : place ∈ above) :
    inspectWithin heap (levels + 1) above value = circularMark := by
  cases value with
  | array ref | object ref | error ref | promise ref =>
    cases hplace
    exact if_pos hmem
  | _ => cases hplace

/-- Everything else is shown around what is shown one level below. -/
theorem inspectWithin_of_notMem (levels : Nat) {above : List Place} {value : Value}
    (hnew : ∀ place ∈ value.holder?, place ∉ above) :
    inspectWithin heap (levels + 1) above value =
      heap.drawing.around value ((heap.drawing.parts value).map
        (inspectWithin heap levels (value.holder?.toList ++ above))) := by
  cases value with
  | undefined | null | bool b | number x | string s | callable ref => rfl
  | array ref => exact if_neg (hnew _ rfl)
  | object ref => exact (if_neg (hnew _ rfl)).trans (shownProperties_eq _ _)
  | error ref =>
    refine (if_neg (hnew _ rfl)).trans ?_
    rw [shownProperties_eq]
    rfl
  | promise ref =>
    refine (if_neg (hnew _ rfl)).trans ?_
    exact congrArg ("Promise \x7b ".toList ++ · ++ [' ', '\x7d']) (shownState_eq _ _)

/-! ### There are levels enough -/

/-- The value that refers to a cell within which values are shown. -/
def Place.holder : Place → Value
  | ⟨.array, index⟩ => .array ⟨index⟩
  | ⟨.object, index⟩ => .object ⟨index⟩
  | ⟨.error, index⟩ => .error ⟨index⟩
  | ⟨.promise, index⟩ => .promise ⟨index⟩
  | _ => .undefined

theorem eq_of_holder? {value : Value} {place : Place} (h : value.holder? = some place) :
    value = place.holder := by
  cases value with
  | array ref | object ref | error ref | promise ref =>
    cases h
    rfl
  | _ => cases h

/-- All cells of some kinds. -/
def Heap.places (heap : Heap) (kinds : List CellKind) : List Place :=
  kinds.flatMap fun kind => (List.range (heap.count kind)).map (Place.mk kind)

/-- No more values refer to cells of some kinds than there are such cells. -/
theorem length_le_places {kinds : List CellKind} {values : List Value} (hnodup : values.Nodup)
    (hplace : ∀ value ∈ values, ∃ place, value.holder? = some place ∧ place.kind ∈ kinds ∧
      place.index < heap.count place.kind) :
    values.length ≤ (heap.places kinds).length := by
  have hplaces : (values.map Value.holder?).Nodup := by
    refine List.Nodup.map_on (fun a ha b hb heq => ?_) hnodup
    obtain ⟨place, hfirst, -⟩ := hplace a ha
    exact (eq_of_holder? hfirst).trans (eq_of_holder? (heq.symm.trans hfirst)).symm
  have hsubset : values.map Value.holder? ⊆ (heap.places kinds).map some := by
    intro found hfound
    obtain ⟨value, hmem, rfl⟩ := List.mem_map.mp hfound
    obtain ⟨place, hholder, hkind, hlt⟩ := hplace value hmem
    refine List.mem_map.mpr ⟨place, List.mem_flatMap.mpr ⟨place.kind, hkind, ?_⟩, hholder.symm⟩
    exact List.mem_map.mpr ⟨place.index, List.mem_range.mpr hlt, rfl⟩
  have hlength := (List.subperm_of_subset hplaces hsubset).length_le
  rwa [List.length_map, List.length_map] at hlength

/-- What stands in a cell stands in one that is there. -/
theorem index_lt_of_mem {kind : CellKind} {ref : Ref kind} {inner : Value}
    (contents : Cell kind → List Value) (hmissing : contents (Cell.missing kind) = [])
    (h : inner ∈ contents (heap.get ref)) : ref.index < heap.count kind := by
  refine Heap.index_lt_of_get_ne fun heq => ?_
  rw [heq, hmissing] at h
  cases h

/-- Values are shown within cells of the heap only. -/
theorem exists_place {outer inner : Value} (h : inner ∈ heap.drawing.parts outer) :
    ∃ place, outer.holder? = some place ∧ place.index < heap.count place.kind := by
  cases outer with
  | array ref => exact ⟨ref.place, rfl, index_lt_of_mem Array.toList rfl h⟩
  | object ref => exact ⟨ref.place, rfl, index_lt_of_mem Dict.values rfl h⟩
  | error ref =>
    have hcell : ref.index < heap.count .error :=
      index_lt_of_mem (fun error : ErrorObject => error.properties.values) rfl h
    exact ⟨ref.place, rfl, hcell⟩
  | promise ref => exact ⟨ref.place, rfl, index_lt_of_mem PromiseState.parts rfl h⟩
  | _ => cases h

theorem kind_of_holder? {value : Value} {place : Place} (h : value.holder? = some place) :
    place.kind ∈ [CellKind.array, .object, .error, .promise] := by
  cases value with
  | array ref | object ref | error ref | promise ref =>
    cases h
    simp [Ref.place]
  | _ => cases h

/-- No more values stand within each other than there are cells. -/
theorem length_le_containers {above : List Value} (hnodup : above.Nodup)
    (hheld : ∀ outer ∈ above, heap.drawing.parts outer ≠ []) :
    above.length ≤ heap.containers := by
  have hlength : above.length ≤ (heap.places [.array, .object, .error, .promise]).length :=
    length_le_places hnodup fun outer hmem => by
      obtain ⟨inner, hinner⟩ := List.exists_mem_of_ne_nil _ (hheld outer hmem)
      obtain ⟨place, hholder, hlt⟩ := exists_place hinner
      exact ⟨place, hholder, kind_of_holder? hholder, hlt⟩
  simpa [Heap.places, Heap.containers, Nat.add_assoc] using hlength

/-- What is shown of a value that stands within others: a mark if it is one of these. The levels
suffice, since with each of them there is one more value that others stand within. -/
theorem marks_inspectWithin {levels : Nat} {above : List Value} (hnodup : above.Nodup)
    (hheld : ∀ outer ∈ above, heap.drawing.parts outer ≠ [])
    (hlevels : heap.containers < levels + above.length) (value : Value) :
    heap.drawing.Marks circularMark above value
      (inspectWithin heap levels (above.filterMap Value.holder?) value) := by
  have hlength := length_le_containers hnodup hheld
  induction levels generalizing above value with
  | zero => omega
  | succ levels ih =>
    by_cases hmem : value ∈ above
    · obtain ⟨inner, hinner⟩ := List.exists_mem_of_ne_nil _ (hheld value hmem)
      obtain ⟨place, hplace, -⟩ := exists_place hinner
      rw [inspectWithin_of_mem levels hplace (List.mem_filterMap.mpr ⟨value, hmem, hplace⟩)]
      exact .circular hmem
    · have hnew (place : Place) (hplace : place ∈ value.holder?) :
          place ∉ above.filterMap Value.holder? := by
        intro hfound
        obtain ⟨outer, houter, heq⟩ := List.mem_filterMap.mp hfound
        rw [(eq_of_holder? hplace).trans (eq_of_holder? heq).symm] at hmem
        exact hmem houter
      have hpush : value.holder?.toList ++ above.filterMap Value.holder? =
          (value :: above).filterMap Value.holder? := by
        rw [List.filterMap_cons]
        cases value.holder? <;> rfl
      rw [inspectWithin_of_notMem levels hnew, hpush]
      refine .whole hmem fun part hpart => ?_
      have hbelow : ∀ outer ∈ value :: above, heap.drawing.parts outer ≠ [] :=
        List.forall_mem_cons.mpr ⟨List.ne_nil_of_mem hpart, hheld⟩
      have hdeeper := List.nodup_cons.mpr ⟨hmem, hnodup⟩
      refine ih hdeeper hbelow ?_ part (length_le_containers hdeeper hbelow)
      rw [List.length_cons]
      omega

theorem marks_inspect (heap : Heap) (value : Value) :
    heap.drawing.Marks circularMark [] value (heap.inspect value).toList := by
  rw [Heap.inspect, String.toList_ofList]
  exact marks_inspectWithin List.nodup_nil nofun (Nat.lt_succ_self _) value

/-! ### What is shown stands in the text -/

theorem infix_enclosed {first last : Char} {texts : List (List Char)} {text : List Char}
    (h : text ∈ texts) : text <:+: enclosed first last texts := by
  have hne : texts.isEmpty = false := List.isEmpty_eq_false_iff.mpr (List.ne_nil_of_mem h)
  have hmem : text ∈ texts.intersperse [',', ' '] := by
    obtain ⟨i, hi⟩ := List.mem_iff_getElem?.mp h
    exact List.mem_of_getElem? ((List.getElem?_intersperse_two_mul).trans hi)
  rw [enclosed, hne, if_neg Bool.false_ne_true]
  exact (List.infix_of_mem_flatten hmem).trans ⟨[first, ' '], [' ', last], by simp⟩

theorem infix_shownUnder {keys : List String} {texts : List (List Char)} {text : List Char}
    (hlength : texts.length = keys.length) (h : text ∈ texts) :
    text <:+: shownUnder keys texts := by
  obtain ⟨i, hi⟩ := List.mem_iff_getElem?.mp h
  obtain ⟨hlt, -⟩ := List.getElem?_eq_some_iff.mp hi
  have hkey : keys[i]? = some keys[i] := List.getElem?_eq_getElem (hlength ▸ hlt)
  have hentry : keyText keys[i] ++ [':', ' '] ++ text ∈
      keys.zipWith (fun key text => keyText key ++ [':', ' '] ++ text) texts := by
    refine List.mem_of_getElem? (i := i) ?_
    rw [List.getElem?_zipWith, hkey, hi]
  exact (List.suffix_append _ text).isInfix.trans (infix_enclosed hentry)

theorem length_values (properties : Dict Value) :
    properties.values.length = properties.keys.length := by
  rw [Dict.values, Dict.keys, List.length_map, List.length_map]

/-- The text of a value has the texts of its parts in it. -/
theorem infix_around {value : Value} {texts : List (List Char)} {text : List Char}
    (hlength : texts.length = (heap.drawing.parts value).length) (h : text ∈ texts) :
    text <:+: heap.drawing.around value texts := by
  cases value with
  | array ref => exact infix_enclosed h
  | object ref =>
    refine infix_shownUnder (hlength.trans ?_) h
    exact length_values (heap.get ref)
  | error ref =>
    replace hlength : texts.length = (heap.get ref).properties.keys.length :=
      hlength.trans (length_values (heap.get ref).properties)
    have hsome : (heap.get ref).properties.isEmpty ≠ true := by
      intro hempty
      rw [Dict.keys, List.isEmpty_iff.mp hempty] at hlength
      rw [List.eq_nil_of_length_eq_zero hlength] at h
      cases h
    have haround : heap.drawing.around (.error ref) texts = (heap.get ref).shownHead ++
        ' ' :: shownUnder (heap.get ref).properties.keys texts :=
      congrArg ((heap.get ref).shownHead ++ ·) (if_neg hsome)
    rw [haround]
    refine (infix_shownUnder hlength h).trans ?_
    exact ((List.suffix_cons _ _).trans (List.suffix_append _ _)).isInfix
  | promise ref =>
    have hstate : text <:+: (heap.get ref).around texts := by
      replace hlength : texts.length = (heap.get ref).parts.length := hlength
      cases hcell : heap.get ref with
      | pending reaction =>
        rw [hcell] at hlength
        rw [List.eq_nil_of_length_eq_zero hlength] at h
        cases h
      | fulfilled value => exact List.infix_of_mem_flatten h
      | rejected reason =>
        exact (List.infix_of_mem_flatten h).trans (List.suffix_append _ _).isInfix
    exact hstate.trans ⟨"Promise \x7b ".toList, [' ', '\x7d'], rfl⟩
  | _ =>
    rw [List.eq_nil_of_length_eq_zero hlength] at h
    cases h

/-- Where a value occurs, its text stands within the text of the whole. -/
theorem exists_marks_of_occurs {root inner : Value} {above : List Value} {whole : List Char}
    (hwhole : heap.drawing.Marks circularMark [] root whole)
    (h : heap.drawing.Occurs root above inner) :
    ∃ text, heap.drawing.Marks circularMark above inner text ∧ text <:+: whole := by
  induction h with
  | root => exact ⟨whole, hwhole, List.infix_rfl⟩
  | part _ hnew hpart ih =>
    obtain ⟨text, hmarks, hinfix⟩ := ih
    cases hmarks with
    | circular hmem => exact absurd hmem hnew
    | whole _ hparts =>
      refine ⟨_, hparts _ hpart, .trans ?_ hinfix⟩
      exact infix_around (List.length_map _) (List.mem_map_of_mem hpart)

/-! ### Circles are marked, and nothing else -/

/-- What is shown of a value is what there is to tell of it with marks, for every value and every
heap. Wherever a value occurs in it, the path to it decides what stands there: a mark if the value
is on that path, and all of it otherwise. It is the text of the value taken for a tree just when no
value in it stands within itself. -/
theorem inspect_marks_circles (heap : Heap) (value : Value) :
    (∀ text, heap.drawing.Marks circularMark [] value text ↔
      text = (heap.inspect value).toList) ∧
    (∀ above inner, heap.drawing.Occurs value above inner →
      ∃ text, heap.drawing.Marks circularMark above inner text ∧
        text <:+: (heap.inspect value).toList) ∧
    (heap.drawing.Unfolds value (heap.inspect value).toList ↔
      ∀ inner, heap.drawing.Reaches value inner → ¬ heap.drawing.IsCircular inner) := by
  have hmarks := marks_inspect heap value
  refine ⟨fun text => ⟨fun h => h.unique hmarks, fun h => h ▸ hmarks⟩, ?_, ?_, ?_⟩
  · exact fun above inner => exists_marks_of_occurs hmarks
  · exact fun htree inner => htree.not_isCircular
  · exact hmarks.unfolds nofun

/-- An array that holds itself once and another array twice. -/
example :
    (Heap.mk #[#[.array ⟨1⟩, .array ⟨0⟩, .array ⟨1⟩], #[.null]] #[] #[] #[] #[] #[]).inspect
      (.array ⟨0⟩) = "[ [ null ], [Circular], [ null ] ]" := by
  decide +kernel

end Doctest.Script
