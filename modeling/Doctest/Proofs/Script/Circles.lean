import Doctest.Proofs.Script.Data
import Doctest.Proofs.Script.Drawing
import Doctest.Proofs.Script.Pairing.Library

/-!
# JSON of values with circles

A value has no JSON form if an array or object within it stands within itself. Every other value
has one, in which it is taken for a tree; only errors that stand within themselves by way of errors
alone are left aside.
-/

namespace Doctest.Script

open Relation (TransGen)

/-! ### JSON as an account -/

/-- The members under keys, of which those without a form are left out. -/
def formsUnder (keys : List String) (forms : List (Option Json)) : List (String × Json) :=
  (keys.zip forms).filterMap fun (key, form?) => form?.map (key, ·)

namespace Heap

variable (heap : Heap)

/-- The values whose forms are within the form of a value. -/
def jsonParts : Value → List Value
  | .array ref => (heap.get ref).toList
  | .object ref => (heap.get ref).values
  | .error ref => (heap.get ref).properties.values
  | _ => []

/-- The form of a value around the forms of what stands within it. -/
def jsonAround (value : Value) (forms : List (Option Json)) : Option Json :=
  match value with
  | .undefined | .callable _ => none
  | .null => some .null
  | .bool b => some (.bool b)
  | .number x => some (.number x)
  | .string s => some (.string s)
  | .array _ => some (.array (forms.map (·.getD .null)))
  | .object ref => some (.object (formsUnder (heap.get ref).keys forms))
  | .error ref => some (.object (formsUnder (heap.get ref).properties.keys forms))
  | .promise _ => some (.object [])

/-- The JSON forms of values, taken for trees. -/
def serial : Account (Option Json) :=
  ⟨heap.jsonParts, heap.jsonAround⟩

/-- A value stands directly within an error. -/
def HoldsInError (outer inner : Value) : Prop :=
  (∃ ref, outer = .error ref) ∧ heap.serial.Holds outer inner

end Heap

theorem jsonMembers_eq_map (form : Value → Except JsonFault (Option Json))
    (entries : List (String × Value)) :
    jsonMembers form entries =
      formsUnder (entries.map Prod.fst) <$> (entries.map Prod.snd).mapM form := by
  induction entries with
  | nil => rfl
  | cons entry entries ih =>
    obtain ⟨key, value⟩ := entry
    rw [jsonMembers, ih, List.map_cons, List.map_cons, List.mapM_cons]
    cases form value with
    | error fault => rfl
    | ok json? =>
      cases (entries.map Prod.snd).mapM form with
      | error fault => rfl
      | ok forms => cases json? <;> rfl

variable {heap : Heap}

/-- A container within itself has no form. -/
theorem jsonWithin_of_mem (levels : Nat) {above : List Place} {value : Value} {place : Place}
    (hplace : value.container? = some place) (hmem : place ∈ above) :
    jsonWithin heap (levels + 1) above value = .error .circular := by
  cases value with
  | array ref | object ref =>
    cases hplace
    exact if_pos hmem
  | _ => cases hplace

/-- Every other value has the form around the forms of what stands within it, if they have one. -/
theorem jsonWithin_of_notMem (levels : Nat) {above : List Place} {value : Value}
    (hnew : ∀ place ∈ value.container?, place ∉ above) :
    jsonWithin heap (levels + 1) above value =
      heap.serial.around value <$> (heap.serial.parts value).mapM
        (jsonWithin heap levels (value.container?.toList ++ above)) := by
  cases value with
  | undefined | null | bool b | number x | string s | callable ref | promise ref => rfl
  | array ref => exact (if_neg (hnew _ rfl)).trans (map_eq_pure_bind _ _).symm
  | object ref =>
    refine (if_neg (hnew _ rfl)).trans ?_
    rw [jsonMembers_eq_map, ← map_eq_pure_bind, Functor.map_map]
    rfl
  | error ref =>
    change (jsonMembers (jsonWithin heap levels above) (heap.get ref).properties.entries >>=
      fun members => pure (some (Json.object members))) = _
    rw [jsonMembers_eq_map, ← map_eq_pure_bind, Functor.map_map]
    rfl

/-! ### Forms of trees and circles -/

/-- An array or object within a value stands within itself. -/
def Heap.HasCircle (heap : Heap) (value : Value) : Prop :=
  ∃ inner, heap.serial.Reaches value inner ∧ inner.container?.isSome = true ∧
    heap.serial.IsCircular inner

theorem Heap.HasCircle.of_part {outer part : Value} (h : heap.HasCircle part)
    (hpart : part ∈ heap.serial.parts outer) : heap.HasCircle outer := by
  obtain ⟨inner, hreach, hinner⟩ := h
  exact ⟨inner, .head hpart hreach, hinner⟩

/-- A value has the form of the tree of its parts, or there is a circle in it. -/
inductive Heap.Forms (heap : Heap) (value : Value) : Except JsonFault (Option Json) → Prop
  | tree {form : Option Json} (h : heap.serial.Unfolds value form) : Forms heap value (.ok form)
  | circle (h : heap.HasCircle value) : Forms heap value (.error .circular)

/-- Values that all have forms. -/
theorem mapM_eq_ok {form : Value → Except JsonFault (Option Json)} {told : Value → Option Json}
    {values : List Value} (h : ∀ value ∈ values, form value = .ok (told value)) :
    values.mapM form = .ok (values.map told) := by
  induction values with
  | nil => rfl
  | cons value values ih =>
    obtain ⟨hvalue, hvalues⟩ := List.forall_mem_cons.mp h
    rw [List.mapM_cons, hvalue, ih hvalues]
    rfl

/-- Values of which one has no form, all for the same fault. -/
theorem mapM_eq_error {form : Value → Except JsonFault (Option Json)} {fault : JsonFault}
    {values : List Value}
    (h : ∀ value ∈ values, (∃ json?, form value = .ok json?) ∨ form value = .error fault)
    (hsome : ∃ value ∈ values, form value = .error fault) :
    values.mapM form = .error fault := by
  induction values with
  | nil =>
    obtain ⟨value, hmem, -⟩ := hsome
    cases hmem
  | cons value values ih =>
    obtain ⟨hvalue, hvalues⟩ := List.forall_mem_cons.mp h
    rw [List.mapM_cons]
    rcases hvalue with ⟨json?, hvalue⟩ | hvalue
    · obtain ⟨other, hmem, hother⟩ := hsome
      rcases List.mem_cons.mp hmem with rfl | hmem
      · cases hvalue.symm.trans hother
      · rw [hvalue, ih hvalues ⟨other, hmem, hother⟩]
        rfl
    · rw [hvalue]
      rfl

/-- A value has a form if all its parts have. -/
theorem Heap.Forms.around {value : Value} {form : Value → Except JsonFault (Option Json)}
    (h : ∀ part ∈ heap.serial.parts value, heap.Forms part (form part)) :
    heap.Forms value (heap.serial.around value <$> (heap.serial.parts value).mapM form) := by
  have hcases (part : Value) (hpart : part ∈ heap.serial.parts value) :
      (∃ json?, form part = .ok json?) ∨ form part = .error .circular := by
    cases hform : form part with
    | ok json? => exact .inl ⟨json?, rfl⟩
    | error fault =>
      have hpart := h part hpart
      rw [hform] at hpart
      cases hpart
      exact .inr rfl
  -- Circles are the only fault there is, so that it does not matter which part comes first.
  by_cases hsome : ∃ part ∈ heap.serial.parts value, form part = .error .circular
  · obtain ⟨part, hpart, hform⟩ := hsome
    have hcircle := h part hpart
    rw [hform] at hcircle
    cases hcircle with
    | circle hcircle =>
      rw [mapM_eq_error hcases ⟨part, hpart, hform⟩]
      exact .circle (hcircle.of_part hpart)
  · have htold (part : Value) (hpart : part ∈ heap.serial.parts value) :
        form part = .ok (form part).toOption.join := by
      obtain ⟨json?, hform⟩ := (hcases part hpart).resolve_right fun hform =>
        hsome ⟨part, hpart, hform⟩
      rw [hform]
      rfl
    rw [mapM_eq_ok htold]
    refine .tree (.intro fun part hpart => ?_)
    have hform := h part hpart
    rw [htold part hpart] at hform
    cases hform with
    | tree hunfolds => exact hunfolds

/-! ### There are levels enough -/

/-- Within JSON there is nothing that is not shown. -/
theorem exists_place_of_holds {outer inner : Value} (h : heap.serial.Holds outer inner) :
    ∃ place, outer.holder? = some place ∧ place.index < heap.count place.kind := by
  have hshown : inner ∈ heap.drawing.parts outer := by
    cases outer with
    | array ref | object ref | error ref => exact h
    | _ => cases h
  exact exists_place hshown

/-- The containers that a value stands within, the innermost first, and the errors that it stands
within inside of the innermost one. None of these is there twice. -/
structure Heap.Trail (heap : Heap) (above errors : List Value) (value : Value) : Prop where
  nodup : above.Nodup
  container : ∀ outer ∈ above, outer.container?.isSome = true
  leads : ∀ outer ∈ above, TransGen heap.serial.Holds outer value
  errors_nodup : errors.Nodup
  errors_lead : ∀ outer ∈ errors, TransGen heap.HoldsInError outer value

namespace Heap.Trail

variable {above errors : List Value} {value part : Value}

theorem root (heap : Heap) (value : Value) : heap.Trail [] [] value :=
  ⟨List.nodup_nil, nofun, nofun, List.nodup_nil, nofun⟩

/-- From a container to what stands in it. -/
theorem into (h : heap.Trail above errors value) (hsome : value.container?.isSome = true)
    (hnew : value ∉ above) (hpart : part ∈ heap.serial.parts value) :
    heap.Trail (value :: above) [] part where
  nodup := List.nodup_cons.mpr ⟨hnew, h.nodup⟩
  container := List.forall_mem_cons.mpr ⟨hsome, h.container⟩
  leads := List.forall_mem_cons.mpr
    ⟨.single hpart, fun outer hmem => (h.leads outer hmem).tail hpart⟩
  errors_nodup := List.nodup_nil
  errors_lead := nofun

/-- From an error to what stands in it. -/
theorem intoError {ref : Ref .error} (h : heap.Trail above errors (.error ref))
    (hnew : ¬ TransGen heap.HoldsInError (.error ref) (.error ref))
    (hpart : part ∈ heap.serial.parts (.error ref)) :
    heap.Trail above (.error ref :: errors) part where
  nodup := h.nodup
  container := h.container
  leads outer hmem := (h.leads outer hmem).tail hpart
  errors_nodup := List.nodup_cons.mpr ⟨fun hmem => hnew (h.errors_lead _ hmem), h.errors_nodup⟩
  errors_lead := List.forall_mem_cons.mpr
    ⟨.single ⟨⟨ref, rfl⟩, hpart⟩,
      fun outer hmem => (h.errors_lead outer hmem).tail ⟨⟨ref, rfl⟩, hpart⟩⟩

theorem length_above_le (h : heap.Trail above errors value) :
    above.length ≤ heap.count .array + heap.count .object := by
  have hlength : above.length ≤ (heap.places [.array, .object]).length :=
    length_le_places h.nodup fun outer hmem => by
      obtain ⟨inner, hholds, -⟩ := TransGen.head'_iff.mp (h.leads outer hmem)
      obtain ⟨place, hholder, hlt⟩ := exists_place_of_holds hholds
      refine ⟨place, hholder, ?_, hlt⟩
      have hsome := h.container outer hmem
      cases outer with
      | array ref | object ref =>
        cases hholder
        simp [Ref.place]
      | _ => cases hsome
  simpa [Heap.places] using hlength

theorem length_errors_le (h : heap.Trail above errors value) :
    errors.length ≤ heap.count .error := by
  have hlength : errors.length ≤ (heap.places [.error]).length :=
    length_le_places h.errors_nodup fun outer hmem => by
      obtain ⟨inner, ⟨⟨ref, rfl⟩, hholds⟩, -⟩ := TransGen.head'_iff.mp (h.errors_lead outer hmem)
      obtain ⟨place, hholder, hlt⟩ := exists_place_of_holds hholds
      refine ⟨place, hholder, ?_, hlt⟩
      cases hholder
      simp [Ref.place]
  simpa [Heap.places] using hlength

end Heap.Trail

/-- Levels that suffice for a value that stands within others. -/
def Heap.Suffice (heap : Heap) (levels : Nat) (above errors : List Value) : Prop :=
  (heap.count .array + heap.count .object + 1) * (heap.count .error + 1) ≤
    levels + above.length * (heap.count .error + 1) + errors.length

namespace Heap.Trail

variable {levels : Nat} {above errors : List Value} {value : Value}

theorem not_suffice_zero (h : heap.Trail above errors value) : ¬ heap.Suffice 0 above errors := by
  intro hlevels
  have hmul := Nat.mul_le_mul_right (heap.count .error + 1) h.length_above_le
  have herrors := h.length_errors_le
  rw [Suffice, Nat.add_mul _ 1, Nat.one_mul] at hlevels
  omega

/-- One more container leaves room for as many errors as there are. -/
theorem suffice_into (h : heap.Trail above errors value)
    (hlevels : heap.Suffice (levels + 1) above errors) :
    heap.Suffice levels (value :: above) [] := by
  have herrors := h.length_errors_le
  rw [Suffice] at hlevels ⊢
  rw [List.length_cons, Nat.add_mul above.length, Nat.one_mul, List.length_nil]
  omega

end Heap.Trail

theorem Heap.Suffice.intoError {levels : Nat} {above errors : List Value} (value : Value)
    (h : heap.Suffice (levels + 1) above errors) : heap.Suffice levels above (value :: errors) := by
  rw [Suffice] at h ⊢
  rw [List.length_cons]
  omega

/-- A container that is none of those that it stands within is in no cell of these. -/
theorem notMem_containers {above : List Value} {value : Value} {place : Place}
    (hplace : value.container? = some place) (hnew : value ∉ above) :
    place ∉ above.filterMap Value.container? := by
  intro hmem
  obtain ⟨outer, houter, heq⟩ := List.mem_filterMap.mp hmem
  obtain rfl := Heap.eq_of_container? hplace heq
  exact hnew houter

/-- There are levels enough: with each of them there is one more container, or one more error
before the next container. -/
theorem forms_jsonWithin {levels : Nat} {above errors : List Value} {value : Value}
    (htrail : heap.Trail above errors value) (hlevels : heap.Suffice levels above errors)
    (herrors : ∀ inner, heap.serial.Reaches value inner →
      ¬ TransGen heap.HoldsInError inner inner) :
    heap.Forms value (jsonWithin heap levels (above.filterMap Value.container?) value) := by
  -- The trail grows by one value from level to level, and there are not that many cells.
  induction levels generalizing above errors value with
  | zero => exact absurd hlevels htrail.not_suffice_zero
  | succ levels ih =>
    by_cases hcircle : value.container?.isSome = true ∧ value ∈ above
    · obtain ⟨hsome, hmem⟩ := hcircle
      obtain ⟨place, hplace⟩ := Option.isSome_iff_exists.mp hsome
      rw [jsonWithin_of_mem levels hplace (List.mem_filterMap.mpr ⟨value, hmem, hplace⟩)]
      exact .circle ⟨value, .refl, hsome, htrail.leads value hmem⟩
    · have hnew (place : Place) (hplace : value.container? = some place) : value ∉ above :=
        fun hmem => hcircle ⟨Option.isSome_iff_exists.mpr ⟨place, hplace⟩, hmem⟩
      rw [jsonWithin_of_notMem levels fun place hplace =>
        notMem_containers hplace (hnew place hplace)]
      refine .around fun part hpart => ?_
      have hbelow (inner : Value) (hreach : heap.serial.Reaches part inner) :
          ¬ TransGen heap.HoldsInError inner inner :=
        herrors inner (.head hpart hreach)
      cases value with
      | array ref | object ref =>
        exact ih (htrail.into rfl (hnew _ rfl) hpart) (htrail.suffice_into hlevels) hbelow
      | error ref =>
        exact ih (htrail.intoError (herrors _ .refl) hpart) (hlevels.intoError _) hbelow
      | _ => cases hpart

theorem forms_json {value : Value}
    (herrors : ∀ inner, heap.serial.Reaches value inner →
      ¬ TransGen heap.HoldsInError inner inner) : heap.Forms value (heap.json value) := by
  refine forms_jsonWithin (.root heap value) ?_ herrors
  rw [Heap.Suffice, List.length_nil, Nat.zero_mul]
  exact Nat.le_succ _

theorem Heap.Forms.hasCircle_iff {value : Value} {result : Except JsonFault (Option Json)}
    (h : heap.Forms value result) : heap.HasCircle value ↔ result = .error .circular := by
  cases h with
  | tree htree =>
    refine ⟨fun ⟨inner, hreach, _, hcircle⟩ => ?_, nofun⟩
    exact absurd hcircle (htree.not_isCircular hreach)
  | circle hcircle => exact ⟨fun _ => rfl, fun _ => hcircle⟩

/-! ### Circles are rejected, and nothing else -/

namespace Library

variable {start : Machine} {value : Value}

/-- The run raises the error that is about circles. -/
def RaisesCircular (run : Except Signal Value × Machine) : Prop :=
  ∃ ref, run.1 = .error (.raised (.error ref)) ∧
    run.2.heap.get ref = ⟨"TypeError", "Converting circular structure to JSON", Dict.empty⟩

theorem raisesCircular_fail (start : Machine) :
    RaisesCircular ((Eval.fail .circularJson : Eval Value) start) := by
  refine ⟨⟨start.heap.count .error⟩, rfl, ?_⟩
  have hget : (start.heap.alloc .error
      ⟨"TypeError", "Converting circular structure to JSON", Dict.empty⟩).2.get
        (⟨start.heap.count .error⟩ : Ref .error) =
      ⟨"TypeError", "Converting circular structure to JSON", Dict.empty⟩ :=
    (Heap.get_alloc _ _ _).trans (if_pos rfl)
  exact hget

/-- **Circular structures are rejected, and nothing else.** If no error within a value stands
within itself by way of errors alone, the conversion comes to an end. It raises the error about
circles if and only if an array or object within the value stands within itself, where promises and
functions hold nothing; otherwise it gives the text of the one form that the value has as a tree,
where each part is written wherever it stands, and changes nothing. -/
theorem stringify_rejects_circles (indent : Value)
    (herrors : ∀ inner, start.heap.serial.Reaches value inner →
      ¬ TransGen start.heap.HoldsInError inner inner) :
    (RaisesCircular (stringify value indent start) ↔ start.heap.HasCircle value) ∧
    (¬ start.heap.HasCircle value → ∃ form,
      (∀ told, start.heap.serial.Unfolds value told ↔ told = form) ∧
      stringify value indent start =
        (.ok (form.elim .undefined fun json => .string (json.text (indentOf indent))), start)) := by
  have hforms : start.heap.Forms value (start.heap.json value) := forms_json herrors
  rw [hforms.hasCircle_iff]
  generalize hjson : start.heap.json value = result at hforms
  cases hforms with
  | @tree form htree =>
    have hrun : stringify value indent start =
        (.ok (form.elim .undefined fun json => .string (json.text (indentOf indent))), start) := by
      rw [Pairing.stringify_apply, hjson]
      cases form <;> rfl
    have honly (told : Option Json) : start.heap.serial.Unfolds value told ↔ told = form :=
      ⟨fun h => h.unique htree, fun h => h ▸ htree⟩
    refine ⟨⟨fun ⟨ref, hraised, _⟩ => ?_, nofun⟩, fun _ => ⟨form, honly, hrun⟩⟩
    rw [hrun] at hraised
    cases hraised
  | circle =>
    have hrun : stringify value indent start = (Eval.fail .circularJson : Eval Value) start := by
      rw [Pairing.stringify_apply, hjson]
    rw [hrun]
    exact ⟨iff_of_true (raisesCircular_fail start) rfl, fun hnone => absurd rfl hnone⟩

/-- An array with the same error twice, and one that stands within itself by way of an error. -/
theorem stringify_rejects_circles_sample :
    ∃ heap : Heap,
      (∀ inner, ¬ TransGen heap.HoldsInError inner inner) ∧
      ¬ heap.HasCircle (.array ⟨0⟩) ∧
      (∃ json, heap.serial.Unfolds (.array ⟨0⟩) (some json) ∧
        json.text "" = "[\x7b\x22a\x22:null\x7d,\x7b\x22a\x22:null\x7d]") ∧
      heap.HasCircle (.array ⟨1⟩) ∧
      RaisesCircular (stringify (.array ⟨1⟩) .undefined ⟨heap, 0⟩) := by
  let heap : Heap :=
    { Heap.empty with
      arrays := #[#[.error ⟨0⟩, .error ⟨0⟩], #[.error ⟨1⟩]]
      errors := #[⟨"Error", "", Dict.ofList [("a", .null)]⟩,
        ⟨"Error", "", Dict.ofList [("a", .array ⟨1⟩)]⟩] }
  have hflat (ref : Ref .error) (inner : Value) (hholds : heap.serial.Holds (.error ref) inner)
      (found : Ref .error) : inner ≠ .error found := by
    rintro rfl
    obtain ⟨_ | _ | index⟩ := ref
    · have hmem : Value.error found ∈ [Value.null] := hholds
      cases List.mem_singleton.mp hmem
    · have hmem : Value.error found ∈ [Value.array ⟨1⟩] := hholds
      cases List.mem_singleton.mp hmem
    · have hmem : Value.error found ∈ [] := hholds
      cases hmem
  have herrors (inner : Value) : ¬ TransGen heap.HoldsInError inner inner := by
    intro hcircle
    obtain ⟨next, ⟨⟨ref, rfl⟩, hholds⟩, hback⟩ := TransGen.head'_iff.mp hcircle
    rcases hback.cases_head with rfl | ⟨_, ⟨⟨found, rfl⟩, -⟩, -⟩
    · exact hflat ref _ hholds ref rfl
    · exact hflat ref _ hholds found rfl
  have hshared := @stringify_rejects_circles ⟨heap, 0⟩ (.array ⟨0⟩) .undefined
    fun inner _ => herrors inner
  have hcircular := @stringify_rejects_circles ⟨heap, 0⟩ (.array ⟨1⟩) .undefined
    fun inner _ => herrors inner
  have htext : (stringify (.array ⟨0⟩) .undefined ⟨heap, 0⟩).1.toOption =
      some (.string "[\x7b\x22a\x22:null\x7d,\x7b\x22a\x22:null\x7d]") := by
    decide +kernel
  have hraised : (stringify (.array ⟨1⟩) .undefined ⟨heap, 0⟩).1.toOption = none := by
    decide +kernel
  have hnone : ¬ heap.HasCircle (.array ⟨0⟩) := by
    intro hcircle
    obtain ⟨ref, hrun, -⟩ := hshared.1.mpr hcircle
    rw [hrun] at htext
    cases htext
  have hsome : heap.HasCircle (.array ⟨1⟩) := by
    by_contra hcircle
    obtain ⟨form, -, hrun⟩ := hcircular.2 hcircle
    rw [hrun] at hraised
    cases hraised
  obtain ⟨form, hunfolds, hrun⟩ := hshared.2 hnone
  rw [hrun] at htext
  cases form with
  | none => cases htext
  | some json =>
    have htold : json.text "" = "[\x7b\x22a\x22:null\x7d,\x7b\x22a\x22:null\x7d]" :=
      Value.string.inj (Option.some.inj htext)
    have hjson := (hunfolds (some json)).mpr rfl
    exact ⟨heap, herrors, hnone, ⟨json, hjson, htold⟩, hsome, hcircular.1.mpr hsome⟩

end Library

end Doctest.Script
