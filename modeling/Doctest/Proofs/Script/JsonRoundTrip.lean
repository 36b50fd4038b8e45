import Doctest.Proofs.Json.Reading
import Doctest.Proofs.Script.Making
import Doctest.Script.Library.Call

/-!
# JSON texts of values and back

A value of strings, whole numbers and containers without circles has a JSON text, with any number
of blanks as its indent, and the value made from that text has the same structure. Only zeros lose
their sign.
-/

namespace Doctest

mutual

/-- The data of a JSON text as data of the script language. -/
def Json.datum : Json → Script.Datum
  | .null => .primitive .null rfl
  | .bool b => .primitive (.bool b) rfl
  | .number x => .primitive (.number x) rfl
  | .string s => .primitive (.string s) rfl
  | .array items => .array (datumIn items)
  | .object members => .object (datumUnder members)

def Json.datumIn : List Json → List Script.Datum
  | [] => []
  | item :: rest => item.datum :: datumIn rest

def Json.datumUnder : List (String × Json) → List (String × Script.Datum)
  | [] => []
  | (key, item) :: rest => (key, item.datum) :: datumUnder rest

end

namespace Script

open Json

/-! ### The JSON form of what a value holds -/

section Form

variable {heap : Heap}

mutual

/-- A value that holds JSON data has them as its JSON form. -/
theorem jsonWithin_eq {json : Json} {value : Value} (h : heap.Holds json.datum value)
    {above : List Place} (hpath : heap.Path above json.datum.size) {levels : Nat}
    (hlevels : heap.count .array + heap.count .object < levels + above.length) :
    jsonWithin heap levels above value = .ok (some json) := by
  have hlength := hpath.length_le
  obtain ⟨levels, rfl⟩ : ∃ n, levels = n + 1 := Nat.exists_eq_succ_of_ne_zero (by omega)
  match json, h with
  | .null, h | .bool b, h | .number x, h | .string s, h =>
    cases h
    rfl
  | .array items, hvalue =>
    have ⟨ref, heq, _, hitems⟩ := hvalue
    subst heq
    have hnew : ref.place ∉ above := hpath.notMem rfl hvalue
    have hinside := hpath.cons rfl hvalue (Nat.lt_add_of_pos_left Nat.one_pos)
    rw [jsonWithin, if_neg hnew,
      mapM_jsonWithin_eq hitems hinside (by rw [List.length_cons]; omega)]
    change Except.ok (some (Json.array ((items.map some).map (·.getD .null)))) = _
    rw [List.map_map]
    change Except.ok (some (Json.array (items.map id))) = _
    rw [List.map_id]
  | .object members, hvalue =>
    have ⟨ref, heq, _, hmembers⟩ := hvalue
    subst heq
    have hnew : ref.place ∉ above := hpath.notMem rfl hvalue
    have hinside := hpath.cons rfl hvalue (Nat.lt_add_of_pos_left Nat.one_pos)
    rw [jsonWithin, if_neg hnew,
      jsonMembers_eq hmembers hinside (by rw [List.length_cons]; omega)]
    rfl
termination_by structural json

theorem mapM_jsonWithin_eq {items : List Json} {values : List Value}
    (h : heap.HoldsAll (datumIn items) values) {above : List Place}
    (hpath : heap.Path above (Datum.sizeAll (datumIn items))) {levels : Nat}
    (hlevels : heap.count .array + heap.count .object < levels + above.length) :
    values.mapM (jsonWithin heap levels above) = .ok (items.map some) := by
  match items, values, h with
  | [], [], _ => rfl
  | item :: items, value :: values, h =>
    rw [List.mapM_cons, jsonWithin_eq h.1 (hpath.mono (Nat.le_add_right _ _)) hlevels,
      mapM_jsonWithin_eq h.2 (hpath.mono (Nat.le_add_left _ _)) hlevels]
    rfl
termination_by structural items

theorem jsonMembers_eq {members : List (String × Json)} {entries : List (String × Value)}
    (h : heap.HoldsUnder (datumUnder members) entries) {above : List Place}
    (hpath : heap.Path above (Datum.sizeUnder (datumUnder members))) {levels : Nat}
    (hlevels : heap.count .array + heap.count .object < levels + above.length) :
    jsonMembers (jsonWithin heap levels above) entries = .ok members := by
  match members, entries, h with
  | [], [], _ => rfl
  | (key, item) :: members, entry :: entries, h =>
    rw [jsonMembers, jsonWithin_eq h.2.1 (hpath.mono (Nat.le_add_right _ _)) hlevels,
      jsonMembers_eq h.2.2 (hpath.mono (Nat.le_add_left _ _)) hlevels]
    rw [← h.1]
    rfl
termination_by structural members

end

theorem json_eq {json : Json} {value : Value} (h : heap.Holds json.datum value) :
    heap.json value = .ok (some json) := by
  refine jsonWithin_eq h (.nil heap _) ?_
  rw [List.length_nil, Nat.add_zero]
  refine Nat.lt_succ_of_le (Nat.le_trans (Nat.le_succ _) ?_)
  exact Nat.le_mul_of_pos_right _ (Nat.succ_pos _)

end Form

/-! ### The value of a JSON text -/

theorem keys_datumUnder (members : List (String × Json)) :
    (datumUnder members).map Prod.fst = members.map Prod.fst := by
  induction members with
  | nil => rfl
  | cons member members ih => exact congrArg (member.1 :: ·) ih

theorem keys_withoutSignsUnder (members : List (String × Json)) :
    (withoutSignsUnder members).map Prod.fst = members.map Prod.fst := by
  induction members with
  | nil => rfl
  | cons member members ih => exact congrArg (member.1 :: ·) ih

mutual

/-- The value made from JSON data holds them. That no object has a key twice is known of what some
value holds. -/
theorem ofJson_makes {heap : Heap} {json : Json} {value : Value} (h : heap.Holds json.datum value)
    (start : Machine) :
    Eval.Makes (fun heap => heap.Holds json.withoutSigns.datum) start
      (ofJson json.withoutSigns) := by
  match json, h with
  | .null, _ | .bool _, _ | .number _, _ | .string _, _ => exact .pure rfl
  | .array items, ⟨_, _, _, hitems⟩ =>
    exact (ofJsonItems_makes hitems start).bind fun _ _ _ hmade => .newArray hmade
  | .object members, ⟨ref, _, _, hmembers⟩ =>
    refine (ofJsonMembers_makes hmembers start).bind fun made middle _ hmade => .newObject ?_
    have hkeys := (heap.get ref).nodup_keys
    rw [hmembers.keys, keys_datumUnder, ← keys_withoutSignsUnder, ← keys_datumUnder,
      ← hmade.keys] at hkeys
    rw [Dict.entries_ofList hkeys]
    exact hmade
termination_by structural json

theorem ofJsonItems_makes {heap : Heap} {items : List Json} {values : List Value}
    (h : heap.HoldsAll (datumIn items) values) (start : Machine) :
    Eval.Makes (fun heap => heap.HoldsAll (datumIn (withoutSignsIn items))) start
      (ofJsonItems (withoutSignsIn items)) := by
  match items, values, h with
  | [], [], _ => exact .pure trivial
  | item :: items, value :: values, h =>
    refine (ofJson_makes h.1 start).bind fun first middle _ hfirst => ?_
    refine (ofJsonItems_makes h.2 middle).bind fun rest last hextends hrest => .pure ?_
    exact ⟨hfirst.mono hextends, hrest⟩
termination_by structural items

theorem ofJsonMembers_makes {heap : Heap} {members : List (String × Json)}
    {entries : List (String × Value)} (h : heap.HoldsUnder (datumUnder members) entries)
    (start : Machine) :
    Eval.Makes (fun heap => heap.HoldsUnder (datumUnder (withoutSignsUnder members))) start
      (ofJsonMembers (withoutSignsUnder members)) := by
  match members, entries, h with
  | [], [], _ => exact .pure trivial
  | (key, item) :: members, entry :: entries, h =>
    refine (ofJson_makes h.2.1 start).bind fun first middle _ hfirst => ?_
    refine (ofJsonMembers_makes h.2.2 middle).bind fun rest last hextends hrest => .pure ?_
    exact ⟨rfl, hfirst.mono hextends, hrest⟩
termination_by structural members

end

namespace Library

theorem eq_space_of_mem_indentOf (n : Float) : ∀ c ∈ (indentOf (.number n)).toList, c = ' ' := by
  intro c hmem
  rw [indentOf] at hmem
  split at hmem
  · rw [String.toList_ofList] at hmem
    exact List.eq_of_mem_replicate hmem
  · cases hmem

/-- An object with an array of numbers and a text. -/
def sampleJson : Json :=
  .object [("sizes", .array [.number 9007199254740991.0, .number (-0.0)]),
    ("a b", .string "\x22\n\\é\u0001😀")]

/-- A machine with a cell for each container of `sampleJson`. -/
def sampleStart : Machine :=
  ⟨{ Heap.empty with
      arrays := #[#[.number 9007199254740991.0, .number (-0.0)]]
      objects := #[⟨[("sizes", .array ⟨0⟩), ("a b", .string "\x22\n\\é\u0001😀")], by decide⟩] }, 0⟩

end Library

end Script

end Doctest
