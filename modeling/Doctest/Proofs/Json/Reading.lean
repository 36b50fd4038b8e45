import Doctest.Proofs.Json.Scalars
import Mathlib.Data.List.DropRight

/-!
# Reading what was written

A JSON text of strings, whole numbers and containers of them is read as what it was written from,
with any indent of blanks; only the sign of a zero is lost.
-/

namespace Doctest.Json

mutual

/-- All numbers are written as integers. -/
def AllIntegers : Json → Prop
  | .number x => isInteger x = true
  | .array items => AllIntegersIn items
  | .object members => AllIntegersUnder members
  | .null | .bool _ | .string _ => True

def AllIntegersIn : List Json → Prop
  | [] => True
  | item :: rest => item.AllIntegers ∧ AllIntegersIn rest

def AllIntegersUnder : List (String × Json) → Prop
  | [] => True
  | (_, item) :: rest => item.AllIntegers ∧ AllIntegersUnder rest

end

mutual

/-- How many arrays and objects stand inside each other. -/
def depth : Json → Nat
  | .array items => 1 + depthIn items
  | .object members => 1 + depthUnder members
  | .null | .bool _ | .number _ | .string _ => 0

def depthIn : List Json → Nat
  | [] => 0
  | item :: rest => max item.depth (depthIn rest)

def depthUnder : List (String × Json) → Nat
  | [] => 0
  | (_, item) :: rest => max item.depth (depthUnder rest)

end

mutual

/-- The same data with zeros that have no sign. -/
def withoutSigns : Json → Json
  | .number x => .number (unsigned x)
  | .array items => .array (withoutSignsIn items)
  | .object members => .object (withoutSignsUnder members)
  | .null => .null
  | .bool b => .bool b
  | .string s => .string s

def withoutSignsIn : List Json → List Json
  | [] => []
  | item :: rest => item.withoutSigns :: withoutSignsIn rest

def withoutSignsUnder : List (String × Json) → List (String × Json)
  | [] => []
  | (key, item) :: rest => (key, item.withoutSigns) :: withoutSignsUnder rest

end

/-! ### Blanks and brackets -/

variable {indent : List Char}

/-- Texts of items, each on a line of its own, with commas between them. -/
def listed (indent : List Char) (depth : Nat) (items : List (List Char)) : List Char :=
  ((items.map (lineBreak indent depth ++ ·)).intersperse [',']).flatten

theorem bracketed_items {depth : Nat} {first last : Char} {items : List (List Char)}
    (h : items ≠ []) :
    bracketed indent depth first last items =
      first :: (listed indent (depth + 1) items ++ (lineBreak indent depth ++ [last])) := by
  rw [bracketed, listed]
  · simp
  · exact h

theorem listed_singleton (depth : Nat) (item : List Char) :
    listed indent depth [item] = lineBreak indent depth ++ item := by
  simp [listed]

theorem listed_cons_cons (depth : Nat) (item next : List Char) (rest : List (List Char)) :
    listed indent depth (item :: next :: rest) =
      lineBreak indent depth ++ (item ++ ',' :: listed indent depth (next :: rest)) := by
  simp [listed]

theorem skipSpaces_skipSpaces (s : List Char) : skipSpaces (skipSpaces s) = skipSpaces s :=
  List.dropWhile_idempotent _ _

theorem skipSpaces_cons {c : Char} (hc : isSpace c = false) (s : List Char) :
    skipSpaces (c :: s) = c :: s := by
  rw [skipSpaces, List.dropWhile_cons, hc, if_neg Bool.false_ne_true]

section Blank

variable (hindent : ∀ c ∈ indent, c = ' ')
include hindent

theorem isSpace_of_mem_lineBreak {depth : Nat} :
    ∀ c ∈ lineBreak indent depth, isSpace c = true := by
  intro c hmem
  rw [lineBreak] at hmem
  split at hmem
  · cases hmem
  rcases List.mem_cons.mp hmem with rfl | hmem
  · decide
  · obtain ⟨line, hline, hmem⟩ := List.mem_flatten.mp hmem
    rw [List.eq_of_mem_replicate hline] at hmem
    rw [hindent c hmem]
    decide

theorem skipSpaces_lineBreak (depth : Nat) (s : List Char) :
    skipSpaces (lineBreak indent depth ++ s) = skipSpaces s :=
  List.dropWhile_append_of_pos (isSpace_of_mem_lineBreak hindent)

/-- Behind the blanks before the items, the first one begins. -/
theorem head?_skipSpaces_listed (depth : Nat) {c : Char} (hc : isSpace c = false)
    (item : List Char) (items : List (List Char)) (rest : List Char) :
    (skipSpaces (listed indent depth ((c :: item) :: items) ++ rest)).head? = some c := by
  cases items with
  | nil =>
    rw [listed_singleton, List.append_assoc, skipSpaces_lineBreak hindent, List.cons_append,
      skipSpaces_cons hc, List.head?_cons]
  | cons next items =>
    rw [listed_cons_cons, List.append_assoc, skipSpaces_lineBreak hindent, List.cons_append,
      List.cons_append, skipSpaces_cons hc, List.head?_cons]

end Blank

/-- A number ends before a line break, and so it does before a bracket without one. -/
theorem endsNumber_lineBreak (depth : Nat) {last : Char} (hlast : last = ']' ∨ last = '\x7d')
    (rest : List Char) : EndsNumber (lineBreak indent depth ++ last :: rest) := by
  intro c hc
  rw [lineBreak] at hc
  split at hc
  · obtain rfl : last = c := Option.some.inj hc
    rcases hlast with rfl | rfl <;> decide
  · obtain rfl : '\n' = c := Option.some.inj hc
    decide

theorem endsNumber_comma (rest : List Char) : EndsNumber (',' :: rest) := by
  intro c hc
  obtain rfl : ',' = c := Option.some.inj hc
  decide

/-! ### Values -/

/-- What is written begins with no blank, and with no bracket that closes. -/
theorem write_head {json : Json} (h : json.AllIntegers) (indent : List Char) (depth : Nat) :
    ∃ c t, write indent depth json = c :: t ∧ isSpace c = false ∧ c ≠ ']' := by
  cases json with
  | null => exact ⟨'n', _, rfl, by decide, by decide⟩
  | bool b =>
    cases b with
    | true => exact ⟨'t', _, rfl, by decide, by decide⟩
    | false => exact ⟨'f', _, rfl, by decide, by decide⟩
  | number x =>
    obtain ⟨c, t, htext, hc⟩ := numberText_head h
    refine ⟨c, t, htext, ?_⟩
    rcases hc with rfl | hdigit
    · decide
    · constructor
      · unfold isSpace
        simp only [Bool.or_eq_false_iff, decide_eq_false_iff_not]
        refine ⟨⟨⟨?_, ?_⟩, ?_⟩, ?_⟩ <;> rintro rfl <;> cases hdigit
      · rintro rfl
        cases hdigit
  | string s => exact ⟨'\x22', _, rfl, by decide, by decide⟩
  | array items =>
    rw [write]
    cases writeItems indent (depth + 1) items with
    | nil => exact ⟨'[', _, rfl, by decide, by decide⟩
    | cons => exact ⟨'[', _, bracketed_items (List.cons_ne_nil _ _), by decide, by decide⟩
  | object members =>
    rw [write]
    cases writeMembers indent (depth + 1) members with
    | nil => exact ⟨'\x7b', _, rfl, by decide, by decide⟩
    | cons => exact ⟨'\x7b', _, bracketed_items (List.cons_ne_nil _ _), by decide, by decide⟩

theorem skipSpaces_write {json : Json} (h : json.AllIntegers) (depth : Nat) (s : List Char) :
    skipSpaces (write indent depth json ++ s) = write indent depth json ++ s := by
  obtain ⟨c, t, htext, hspace, -⟩ := write_head h indent depth
  rw [htext]
  exact skipSpaces_cons hspace _

/-- What begins with a digit or a minus is read as a number. -/
theorem readValue?_number {fuel depth : Nat} {s t : List Char} {c : Char}
    (hs : skipSpaces s = c :: t) (hc : c = '-' ∨ c.isDigit = true) :
    readValue? (fuel + 1) depth s = (readNumber? (c :: t)).map fun (x, s) => (.number x, s) := by
  have hne {d : Char} (hd : d ≠ '-' ∧ d.isDigit = false) : c ≠ d := by
    rintro rfl
    rcases hc with rfl | hdigit
    · exact hd.1 rfl
    · rw [hd.2] at hdigit
      cases hdigit
  unfold readValue?
  rw [hs]
  split
  · next heq =>
    injection heq with heq
    exact absurd heq (hne (by decide))
  · next heq =>
    injection heq with heq
    exact absurd heq (hne (by decide))
  · next heq =>
    injection heq with heq
    exact absurd heq (hne (by decide))
  · next heq =>
    injection heq with heq
    exact absurd heq (hne (by decide))
  · next heq =>
    injection heq with heq
    exact absurd heq (hne (by decide))
  · next heq =>
    injection heq with heq
    exact absurd heq (hne (by decide))
  · rfl

/-! ### One step of each reader -/

section Steps

variable {fuel depth : Nat} {s t u rest : List Char} {json : Json}

theorem readValue?_string (hs : skipSpaces s = '\x22' :: t) {text : String}
    (ht : readString? (fuel + 1) t = some (text, u)) :
    readValue? (fuel + 1) depth s = some (.string text, u) := by
  simp [readValue?, hs, ht]

theorem readValue?_array {items : List Json} (hs : skipSpaces s = '[' :: t)
    (ht : (skipSpaces t).head? ≠ some ']')
    (hitems : readItems? fuel depth (skipSpaces t) = some (items, rest)) :
    readValue? (fuel + 1) (depth + 1) s = some (.array items, rest) := by
  cases hu : skipSpaces t with
  | nil => simp [readValue?, hs, hu, ← hitems]
  | cons c u =>
    have hc : c ≠ ']' := by simpa [hu] using ht
    simp [readValue?, hs, hu, hc, ← hitems]

theorem readValue?_object {members : List (String × Json)} (hs : skipSpaces s = '\x7b' :: t)
    (ht : (skipSpaces t).head? ≠ some '\x7d')
    (hmembers : readMembers? fuel depth (skipSpaces t) = some (members, rest)) :
    readValue? (fuel + 1) (depth + 1) s = some (.object members, rest) := by
  cases hu : skipSpaces t with
  | nil => simp [readValue?, hs, hu, ← hmembers]
  | cons c u =>
    have hc : c ≠ '\x7d' := by simpa [hu] using ht
    simp [readValue?, hs, hu, hc, ← hmembers]

theorem readItems?_last (hs : readValue? fuel depth s = some (json, t))
    (ht : skipSpaces t = ']' :: rest) : readItems? (fuel + 1) depth s = some ([json], rest) := by
  simp [readItems?, hs, ht]

theorem readItems?_more {items : List Json} (hs : readValue? fuel depth s = some (json, t))
    (ht : skipSpaces t = ',' :: u) (hitems : readItems? fuel depth u = some (items, rest)) :
    readItems? (fuel + 1) depth s = some (json :: items, rest) := by
  simp [readItems?, hs, ht, hitems]

variable {key : String} {v w : List Char}

theorem readMembers?_last (hs : skipSpaces s = '\x22' :: t)
    (hkey : readString? (fuel + 1) t = some (key, u)) (hu : skipSpaces u = ':' :: v)
    (hvalue : readValue? fuel depth v = some (json, w)) (hw : skipSpaces w = '\x7d' :: rest) :
    readMembers? (fuel + 1) depth s = some ([(key, json)], rest) := by
  simp [readMembers?, hs, hkey, hu, hvalue, hw]

theorem readMembers?_more {members : List (String × Json)} {x : List Char}
    (hs : skipSpaces s = '\x22' :: t) (hkey : readString? (fuel + 1) t = some (key, u))
    (hu : skipSpaces u = ':' :: v) (hvalue : readValue? fuel depth v = some (json, w))
    (hw : skipSpaces w = ',' :: x) (hmembers : readMembers? fuel depth x = some (members, rest)) :
    readMembers? (fuel + 1) depth s = some ((key, json) :: members, rest) := by
  simp [readMembers?, hs, hkey, hu, hvalue, hw, hmembers]

end Steps

/-! ### The whole text -/

theorem length_quote (text : String) : text.toList.length + 2 ≤ (quote text).length := by
  have hle := length_le_length_flatMap_escapeChar text.toList
  simp only [quote, List.length_append, List.length_cons, List.length_nil]
  omega

theorem quote_append (text : String) (rest : List Char) :
    quote text ++ rest = '\x22' :: (text.toList.flatMap escapeChar ++ '\x22' :: rest) := by
  simp [quote]

/-- What a colon stands before is behind the colon and at most one blank. -/
theorem skipSpaces_colon (indent rest : List Char) :
    ∃ s, skipSpaces (colon indent ++ rest) = ':' :: s ∧ skipSpaces s = skipSpaces rest := by
  unfold colon
  split
  · exact ⟨rest, skipSpaces_cons (by decide) rest, rfl⟩
  · exact ⟨' ' :: rest, skipSpaces_cons (by decide) _, rfl⟩

section Values

variable (hindent : ∀ c ∈ indent, c = ' ')
include hindent

mutual

/-- A text that was written is read as the data it was written from. -/
theorem readValue?_write {json : Json} (hjson : json.AllIntegers) {fuel allowed depth : Nat}
    {s rest : List Char} (hdepth : json.depth ≤ allowed)
    (hfuel : 2 * (write indent depth json).length < fuel)
    (hs : skipSpaces s = write indent depth json ++ rest) (hrest : EndsNumber rest) :
    readValue? fuel allowed s = some (json.withoutSigns, rest) := by
  obtain ⟨fuel, rfl⟩ := Nat.exists_eq_succ_of_ne_zero (Nat.ne_of_gt (Nat.zero_lt_of_lt hfuel))
  match json, hjson with
  | .null, _ =>
    rw [readValue?, hs]
    rfl
  | .bool b, _ =>
    rw [readValue?, hs]
    cases b <;> rfl
  | .number x, hx =>
    obtain ⟨c, t, htext, hc⟩ := numberText_head hx
    have hread := readNumber?_numberText hx hrest
    rw [htext] at hread
    rw [readValue?_number (hs.trans (congrArg (· ++ rest) htext)) hc]
    change (readNumber? (c :: t ++ rest)).map _ = _
    rw [hread]
    rfl
  | .string text, _ =>
    have hlength := length_quote text
    have hlt : text.toList.length < fuel + 1 := by
      rw [write] at hfuel
      omega
    rw [write, quote_append] at hs
    exact readValue?_string hs (readString?_quote _ text rest hlt)
  | .array items, hitems =>
    obtain ⟨allowed, rfl⟩ := Nat.exists_eq_add_of_le (Nat.le_trans (Nat.le_add_right 1 _) hdepth)
    rw [Nat.add_comm]
    cases items with
    | nil =>
      rw [readValue?, hs]
      rfl
    | cons item items =>
      obtain ⟨c, t, htext, hspace, hc⟩ := write_head hitems.1 indent (depth + 1)
      rw [write, bracketed_items (by nofun)] at hs hfuel
      rw [List.length_cons, List.length_append] at hfuel
      rw [List.cons_append, List.append_assoc, List.append_assoc] at hs
      have hread : readItems? fuel allowed (skipSpaces _) = some _ :=
        readItems?_write hitems (List.cons_ne_nil _ _) (depth + 1)
          (Nat.le_of_add_le_add_left hdepth) (by omega) (skipSpaces_skipSpaces _)
          ((skipSpaces_lineBreak hindent depth _).trans (skipSpaces_cons (by decide) rest))
          (endsNumber_lineBreak depth (.inl rfl) rest)
      refine readValue?_array hs ?_ hread
      rw [writeItems, htext, head?_skipSpaces_listed hindent (depth + 1) hspace]
      exact fun heq => hc (Option.some.inj heq)
  | .object members, hmembers =>
    obtain ⟨allowed, rfl⟩ := Nat.exists_eq_add_of_le (Nat.le_trans (Nat.le_add_right 1 _) hdepth)
    rw [Nat.add_comm]
    match members, hmembers with
    | [], _ =>
      rw [readValue?, hs]
      rfl
    | (key, value) :: members, hmembers =>
      rw [write, bracketed_items (by nofun)] at hs hfuel
      rw [List.length_cons, List.length_append] at hfuel
      rw [List.cons_append, List.append_assoc, List.append_assoc] at hs
      have hread : readMembers? fuel allowed (skipSpaces _) = some _ :=
        readMembers?_write hmembers (List.cons_ne_nil _ _) (depth + 1)
          (Nat.le_of_add_le_add_left hdepth) (by omega) (skipSpaces_skipSpaces _)
          ((skipSpaces_lineBreak hindent depth _).trans (skipSpaces_cons (by decide) rest))
          (endsNumber_lineBreak depth (.inr rfl) rest)
      refine readValue?_object hs ?_ hread
      rw [writeMembers, List.append_assoc, quote_append,
        head?_skipSpaces_listed hindent (depth + 1) (by decide)]
      decide
termination_by structural json

/-- The items of an array up to its closing bracket are read as they were written. -/
theorem readItems?_write {items : List Json} (hitems : AllIntegersIn items) (hne : items ≠ [])
    (depth : Nat) {fuel allowed : Nat} {s close rest : List Char}
    (hdepth : depthIn items ≤ allowed)
    (hfuel : 2 * (listed indent depth (writeItems indent depth items)).length + 1 < fuel)
    (hs : skipSpaces s =
      skipSpaces (listed indent depth (writeItems indent depth items) ++ close))
    (hclose : skipSpaces close = ']' :: rest) (hends : EndsNumber close) :
    readItems? fuel allowed s = some (withoutSignsIn items, rest) := by
  obtain ⟨fuel, rfl⟩ := Nat.exists_eq_succ_of_ne_zero (Nat.ne_of_gt (Nat.zero_lt_of_lt hfuel))
  match items, hitems with
  | [item], hitems =>
    rw [writeItems, writeItems, listed_singleton, List.length_append] at hfuel
    rw [writeItems, writeItems, listed_singleton, List.append_assoc,
      skipSpaces_lineBreak hindent, skipSpaces_write hitems.1] at hs
    have hitem : readValue? fuel allowed s = some (item.withoutSigns, close) :=
      readValue?_write hitems.1 (Nat.le_trans (Nat.le_max_left _ _) hdepth) (by omega) hs hends
    exact readItems?_last hitem hclose
  | item :: next :: items, hitems =>
    rw [writeItems, writeItems, listed_cons_cons, List.length_append, List.length_append,
      List.length_cons] at hfuel
    rw [writeItems, writeItems, listed_cons_cons, List.append_assoc,
      skipSpaces_lineBreak hindent, List.append_assoc, skipSpaces_write hitems.1] at hs
    have hitem : readValue? fuel allowed s = some (item.withoutSigns, _) :=
      readValue?_write hitems.1 (Nat.le_trans (Nat.le_max_left _ _) hdepth) (by omega) hs
        (endsNumber_comma _)
    have hrest : readItems? fuel allowed
        (listed indent depth (writeItems indent depth (next :: items)) ++ close) =
          some (withoutSignsIn (next :: items), rest) :=
      readItems?_write hitems.2 (List.cons_ne_nil _ _) depth
        (Nat.le_trans (Nat.le_max_right _ _) hdepth) (by rw [writeItems]; omega) rfl hclose hends
    exact readItems?_more hitem (skipSpaces_cons (by decide) _) hrest
termination_by structural items

/-- The members of an object up to its closing brace are read as they were written. -/
theorem readMembers?_write {members : List (String × Json)} (hmembers : AllIntegersUnder members)
    (hne : members ≠ []) (depth : Nat) {fuel allowed : Nat} {s close rest : List Char}
    (hdepth : depthUnder members ≤ allowed)
    (hfuel : 2 * (listed indent depth (writeMembers indent depth members)).length + 1 < fuel)
    (hs : skipSpaces s =
      skipSpaces (listed indent depth (writeMembers indent depth members) ++ close))
    (hclose : skipSpaces close = '\x7d' :: rest) (hends : EndsNumber close) :
    readMembers? fuel allowed s = some (withoutSignsUnder members, rest) := by
  obtain ⟨fuel, rfl⟩ := Nat.exists_eq_succ_of_ne_zero (Nat.ne_of_gt (Nat.zero_lt_of_lt hfuel))
  match members, hmembers with
  | [(key, value)], hmembers =>
    have hlength := length_quote key
    rw [writeMembers, writeMembers, listed_singleton, List.length_append, List.length_append,
      List.length_append] at hfuel
    rw [writeMembers, writeMembers, listed_singleton, List.append_assoc,
      skipSpaces_lineBreak hindent, List.append_assoc, List.append_assoc, quote_append,
      skipSpaces_cons (by decide)] at hs
    have hkey (s : List Char) := readString?_quote (fuel + 1) key s (by omega)
    obtain ⟨t, hcolon, ht⟩ := skipSpaces_colon indent (write indent depth value ++ close)
    rw [skipSpaces_write hmembers.1] at ht
    have hvalue : readValue? fuel allowed t = some (value.withoutSigns, close) :=
      readValue?_write hmembers.1 (Nat.le_trans (Nat.le_max_left _ _) hdepth) (by omega) ht hends
    exact readMembers?_last hs (hkey _) hcolon hvalue hclose
  | (key, value) :: next :: members, hmembers =>
    have hlength := length_quote key
    rw [writeMembers, writeMembers, listed_cons_cons, List.length_append, List.length_append,
      List.length_cons, List.length_append, List.length_append] at hfuel
    rw [writeMembers, writeMembers, listed_cons_cons, List.append_assoc,
      skipSpaces_lineBreak hindent, List.append_assoc, List.append_assoc, List.append_assoc,
      quote_append, skipSpaces_cons (by decide)] at hs
    have hkey (s : List Char) := readString?_quote (fuel + 1) key s (by omega)
    obtain ⟨t, hcolon, ht⟩ := skipSpaces_colon indent (write indent depth value ++
      (',' :: listed indent depth (writeMembers indent depth (next :: members)) ++ close))
    rw [skipSpaces_write hmembers.1] at ht
    have hvalue : readValue? fuel allowed t = some (value.withoutSigns, _) :=
      readValue?_write hmembers.1 (Nat.le_trans (Nat.le_max_left _ _) hdepth) (by omega) ht
        (endsNumber_comma _)
    have hrest : readMembers? fuel allowed
        (listed indent depth (writeMembers indent depth (next :: members)) ++ close) =
          some (withoutSignsUnder (next :: members), rest) :=
      readMembers?_write hmembers.2 (List.cons_ne_nil _ _) depth
        (Nat.le_trans (Nat.le_max_right _ _) hdepth) (by rw [writeMembers]; omega) rfl hclose hends
    exact readMembers?_more hs (hkey _) hcolon hvalue (skipSpaces_cons (by decide) _) hrest
termination_by structural members

end

end Values

/-- A text with an indent of blanks is read as the data it was written from, without the signs of
zeros. -/
theorem read?_text {json : Json} {indent : String} (hindent : ∀ c ∈ indent.toList, c = ' ')
    (hjson : json.AllIntegers) (hdepth : json.depth ≤ greatestDepth) :
    read? (json.text indent) = some json.withoutSigns := by
  have hspaces : skipSpaces (write indent.toList 0 json) = write indent.toList 0 json ++ [] := by
    have h : skipSpaces (write indent.toList 0 json ++ []) = _ := skipSpaces_write hjson 0 []
    rwa [List.append_nil] at h ⊢
  have hread : readValue? (2 * (write indent.toList 0 json).length + 2) greatestDepth
      (write indent.toList 0 json) = some (json.withoutSigns, []) :=
    readValue?_write hindent hjson hdepth (by omega) hspaces nofun
  unfold read? text
  rw [String.toList_ofList]
  dsimp only
  rw [hread]
  rfl

end Doctest.Json
