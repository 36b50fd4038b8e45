import Doctest.Proofs.Script.Listing
import Doctest.Proofs.Script.Settling.Requests

/-!
# The fields of errors

An error has its name and its message in two fields, and what stands among its properties under
these names is hidden. Scripts put nothing there later: it comes from the options that the error
was made with, and stays.
-/

namespace Doctest.Script

open Relation

namespace Heap

/-- Where an error has a property under the name of one of its fields, some object has one of that
name. -/
def FieldsFromOptions (heap : Heap) : Prop :=
  ∀ (error : Ref .error) (key : String), ErrorObject.IsField key →
    (heap.get error).properties.contains key = true →
      ∃ options : Ref .object, Dict.contains (heap.get options) key = true

/-- Errors have among their properties what they had there before under the names of their
fields. -/
def FieldsStay (heap later : Heap) : Prop :=
  ∀ (error : Ref .error) (key : String), error.index < heap.count .error →
    ErrorObject.IsField key →
      (later.get error).properties.get? key = (heap.get error).properties.get? key

/-- What becomes of the fields of errors: those of old errors stay, those of new ones come from
objects, and objects keep their keys. -/
structure KeepsFields (heap later : Heap) : Prop where
  count_le : heap.count .error ≤ later.count .error
  stays : heap.FieldsStay later
  keys : ∀ (options : Ref .object) (key : String),
    Dict.contains (heap.get options) key = true → Dict.contains (later.get options) key = true
  made : ∀ (error : Ref .error) (key : String), heap.count .error ≤ error.index →
    ErrorObject.IsField key → (later.get error).properties.contains key = true →
      ∃ options : Ref .object, Dict.contains (later.get options) key = true

variable {heap later last : Heap}

/-- An error that is not there has no properties. -/
theorem contains_error_of_le {error : Ref .error} (h : heap.count .error ≤ error.index)
    (key : String) : (heap.get error).properties.contains key = false := by
  rw [heap.get_of_le error h]
  rfl

theorem lt_of_contains {options : Ref .object} {key : String}
    (h : Dict.contains (heap.get options) key = true) : options.index < heap.count .object := by
  refine index_lt_of_get_ne fun hmissing => ?_
  rw [hmissing] at h
  cases h

namespace KeepsFields

theorem refl (heap : Heap) : heap.KeepsFields heap where
  count_le := Nat.le_refl _
  stays _ _ _ _ := rfl
  keys _ _ h := h
  made error key hle _ h := by
    rw [contains_error_of_le hle] at h
    cases h

theorem trans (h : heap.KeepsFields later) (hlater : later.KeepsFields last) :
    heap.KeepsFields last where
  count_le := Nat.le_trans h.count_le hlater.count_le
  stays error key hlt hfield :=
    (hlater.stays error key (Nat.lt_of_lt_of_le hlt h.count_le) hfield).trans
      (h.stays error key hlt hfield)
  keys options key hmem := hlater.keys options key (h.keys options key hmem)
  made error key hle hfield hmem := by
    rcases Nat.lt_or_ge error.index (later.count .error) with hlt | hge
    · rw [Dict.contains, hlater.stays error key hlt hfield] at hmem
      obtain ⟨options, hoptions⟩ := h.made error key hle hfield hmem
      exact ⟨options, hlater.keys options key hoptions⟩
    · exact hlater.made error key hge hfield hmem

/-- A cell is made: an error gets its properties from an object. -/
theorem alloc {kind : CellKind} {cell : Cell kind} (hmade : Cell.Made heap cell) :
    heap.KeepsFields (heap.alloc kind cell).2 := by
  have hextends := heap.extends_alloc cell
  have hkeys : ∀ (options : Ref .object) (key : String),
      Dict.contains (heap.get options) key = true →
        Dict.contains ((heap.alloc kind cell).2.get options) key = true := by
    intro options key hmem
    rwa [hextends.get_eq options (lt_of_contains hmem)]
  refine ⟨hextends.grows _, fun error key hlt _ => by rw [hextends.get_eq error hlt], hkeys, ?_⟩
  intro error key hle _ hmem
  by_cases hplace : error.place = ⟨kind, heap.count kind⟩
  · obtain ⟨index⟩ := error
    obtain ⟨rfl, rfl⟩ := Place.mk.inj hplace
    rw [get_alloc, if_pos rfl] at hmem
    rcases hmade with hempty | ⟨options, hoptions⟩
    · rw [hempty] at hmem
      cases hmem
    · exact ⟨options, hkeys options key (hoptions ▸ hmem)⟩
  · rw [heap.get_alloc_of_place_ne cell error hplace, contains_error_of_le hle] at hmem
    cases hmem

/-- A cell is changed as scripts change cells. -/
theorem modify {kind : CellKind} {ref : Ref kind} {f : Cell kind → Cell kind}
    (hchanged : Cell.Changed f) : heap.KeepsFields (heap.modify ref f) where
  count_le := Nat.le_of_eq (heap.count_modify ref f).symm
  stays error key _ hfield := by
    by_cases hkind : kind = .error
    · subst hkind
      rw [get_modify]
      split
      · exact hchanged _ key hfield
      · rfl
    · rw [heap.get_modify_of_ne ref f error (Ne.symm hkind)]
  keys options key hmem := by
    by_cases hkind : kind = .object
    · subst hkind
      rw [get_modify]
      split
      · exact hchanged _ key hmem
      · exact hmem
    · rwa [heap.get_modify_of_ne ref f options (Ne.symm hkind)]
  made error key hle _ hmem := by
    rw [← heap.count_modify ref f] at hle
    rw [contains_error_of_le hle] at hmem
    cases hmem

end KeepsFields

theorem Step.keepsFields (h : heap.Step later) : heap.KeepsFields later := by
  cases h with
  | alloc cell _ hmade => exact .alloc hmade
  | modify ref f _ hchanged => exact .modify hchanged
  | make => exact .alloc trivial
  | resolve => exact .modify trivial

end Heap

theorem Act.Moves.keepsFields {act : Act} {heap later : Heap} (h : act.Moves heap later) :
    heap.KeepsFields later := by
  cases h with
  | handed | answered | stopped => exact .refl heap
  | began | ended => exact .modify trivial

/-- From the first of some moments to the last, errors keep what is hidden by their fields. -/
theorem Moved.keepsFields {start last : Heap} {moments : List Moment}
    (h : Moved start moments last) : start.KeepsFields last := by
  have hsteps {start last : Heap} (h : ReflTransGen Heap.Step start last) :
      start.KeepsFields last := by
    induction h with
    | refl => exact .refl _
    | tail _ hstep ih => exact ih.trans hstep.keepsFields
  induction h with
  | nil h => exact hsteps h
  | cons h hmoves _ ih => exact ((hsteps h).trans hmoves.keepsFields).trans ih

namespace Runs

open Library

variable {last : Session} {answered : List (Request × Outcome)} {moments : List Moment}

/-- **Fields of errors.** In every state that scripts reach, an error has properties under the names
of its fields only where some object has one of that name, and they stay as they are from then on.
What the entries of a value list is what is read, and what the options of a new error hold is what
the error holds, exactly where no field of an error hides it. -/
theorem error_fields (h : Runs Session.new answered moments last) :
    last.heap.FieldsFromOptions ∧
    (∀ later noted next, Runs last later noted next → last.heap.FieldsStay next.heap) ∧
    (∀ (start after : Machine) (target found value : Value) (key : String),
      entries target start = (.ok found, after) → after.heap.Lists found key value →
        (Eval.property target key after = (.ok value, after) ↔
          ¬ after.heap.Hides target key value)) ∧
    ∀ (invoke : Invoke) (start after : Machine) (kind : ErrorKind) (args : List Value)
      (options : Ref .object) (error value : Value) (key : String),
      args[1]? = some (.object options) →
        call invoke (.error kind) args start = (.ok error, after) →
          Eval.property (.object options) key after = (.ok value, after) →
            (Eval.property error key after = (.ok value, after) ↔
              ¬ after.heap.Hides error key value) := by
  have hwhole := Session.whole_new
  refine ⟨fun error key => ?_, fun later noted next hlater => ?_, ?_, ?_⟩
  · have hnone : Session.new.heap.count .error = 0 := by decide +kernel
    exact (h.moved hwhole).keepsFields.made error key (by rw [hnone]; exact Nat.zero_le _)
  · exact (hlater.moved (h.whole hwhole)).keepsFields.stays
  · intro start after target found value key hentries hlists
    exact property_of_entries_iff hentries hlists
  · intro invoke start after kind args options error value key hoptions hmade hread
    exact property_of_newErrorOf_iff hoptions hmade hread

/-- A script that makes an error with a message among its options. -/
def hidingMessage : String :=
  "new Error('m', \x7b message: 'x' \x7d)"

theorem exists_hiding_message :
    ∃ last, Runs Session.new [(.evaluate hidingMessage, .ok (.error ⟨0⟩))]
        ((Request.evaluate hidingMessage).moments amplyManyLevels Session.new) last ∧
      (last.heap.get (⟨0⟩ : Ref .error)).message = "m" ∧
      (last.heap.get (⟨0⟩ : Ref .error)).properties.get? "message" = some (.string "x") := by
  have hscript : ((Step.evaluate amplyManyLevels hidingMessage).run Session.new).map (fun found =>
      (found.1, (found.2.heap.get (⟨0⟩ : Ref .error)).message,
        (found.2.heap.get (⟨0⟩ : Ref .error)).properties.get? "message")) =
          some (.ok (.error ⟨0⟩), "m", some (.string "x")) := by
    decide +kernel
  obtain ⟨⟨answer, last⟩, hrun, hfound⟩ := Option.map_eq_some_iff.mp hscript
  obtain ⟨rfl, hfields⟩ := Prod.mk.inj hfound
  obtain ⟨hmessage, hextra⟩ := Prod.mk.inj hfields
  have hheld : (Request.evaluate hidingMessage).Held Session.new := trivial
  exact ⟨last, .snoc (.nil _) hheld hrun, hmessage, hextra⟩

/-- Of an error with a message among its properties, the property is listed and not read. -/
theorem error_fields_hiding_message :
    ∃ answered moments last, Runs Session.new answered moments last ∧
      last.heap.FieldsFromOptions ∧
      ∃ start after found, entries (.error ⟨0⟩) start = (.ok found, after) ∧
        after.heap.Lists found "code" (.string "x") ∧
        Eval.property (.error ⟨0⟩) "code" after = (.ok (.string "x"), after) ∧
        after.heap.Lists found "message" (.string "y") ∧
        Eval.property (.error ⟨0⟩) "message" after ≠ (.ok (.string "y"), after) := by
  obtain ⟨last, hruns, -⟩ := exists_hiding_message
  obtain ⟨hoptions, -, hlisted, -⟩ := hruns.error_fields
  let error : Cell .error :=
    ErrorObject.mk "Error" "m" (Dict.ofList [("code", .string "x"), ("message", .string "y")])
  let start : Machine := ⟨(Heap.empty.alloc .error error).2, 0⟩
  have hentries : entries (.error ⟨0⟩) start =
      (.ok (.array ⟨2⟩), (entries (.error ⟨0⟩) start).2) := rfl
  have hcode : (entries (.error ⟨0⟩) start).2.heap.Lists (.array ⟨2⟩) "code" (.string "x") :=
    ⟨⟨2⟩, .array ⟨0⟩, rfl, by decide, ⟨0⟩, rfl, by decide, rfl⟩
  have hmessage : (entries (.error ⟨0⟩) start).2.heap.Lists (.array ⟨2⟩) "message" (.string "y") :=
    ⟨⟨2⟩, .array ⟨1⟩, rfl, by decide, ⟨1⟩, rfl, by decide, rfl⟩
  refine ⟨_, _, _, hruns, hoptions, start, _, _, hentries, hcode, ?_, hmessage, ?_⟩
  · rw [hlisted _ _ _ _ _ _ hentries hcode, Heap.hides_error_iff]
    decide
  · rw [Ne, hlisted _ _ _ _ _ _ hentries hmessage, Heap.hides_error_iff]
    decide

/-- An error that is made with a message among its options has that among its properties, and reads
another one. -/
theorem message_hidden :
    (∃ answered moments last, Runs Session.new answered moments last ∧
      (last.heap.get (⟨0⟩ : Ref .error)).properties.get? "message" = some (.string "x") ∧
      Eval.property (.error ⟨0⟩) "message" last.machine = (.ok (.string "m"), last.machine)) ∧
    ((Step.evaluate amplyManyLevels <|
        "let e = new Error('m', \x7b message: 'x' \x7d); " ++
          "Object.entries(e).every(p => e[p[0]] === p[1])").run
      Session.new).map Prod.fst = some (.ok (.bool false)) := by
  constructor
  · obtain ⟨last, hruns, hmessage, hextra⟩ := exists_hiding_message
    have hread : (last.machine.heap.get (⟨0⟩ : Ref .error)).message = "m" := hmessage
    refine ⟨_, _, last, hruns, hextra, ?_⟩
    rw [Eval.property_error, if_neg (by decide), if_pos rfl, hread]
  · decide +kernel

end Runs

end Doctest.Script
