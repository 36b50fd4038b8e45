import Doctest.Proofs.Number.Doubles
import Doctest.Proofs.Script.Data
import Doctest.Proofs.Script.Parsing.Brackets
import Doctest.Proofs.Script.Spelling

/-!
# What values are shown as

The text that a value without circles is shown as is taken apart into tokens that its structure
gives: brackets around items, keys before values, a minus before a negative number.
-/

namespace Doctest

/-- The text of a number, if it is finite and no zero, converts to that number. -/
def Number.ReadsBack (x : Float) : Prop :=
  x.isFinite = true → (x == 0.0) = false → Number.ofText (Number.text x).toList = x

namespace Script

open Doctest.Script.Parser (separated keyed)

/-! ### The tokens that data are shown as -/

/-- The text of the size of a finite number. -/
def sizeText (mantissa : Nat) (exponent : Int) : List Char :=
  if mantissa = 0 then ['0'] else (Number.Layout.script.sizeText mantissa exponent).toList

/-- A token with a minus before it or without one. -/
def signedKinds (negative : Bool) (k : TokenKind) : List TokenKind :=
  if negative then [.symbol .minus, k] else [k]

/-- The tokens that a number is shown as. -/
def numberKinds (x : Float) : List TokenKind :=
  match Number.Binary.ofFloat x with
  | .nan => [.ident "NaN"]
  | .infinite negative => signedKinds negative (.ident "Infinity")
  | .finite negative m e => signedKinds negative (.number (Number.ofText (sizeText m e)))

/-- The tokens that a value without references is shown as. -/
def Value.kinds : Value → List TokenKind
  | .undefined => [.undefined]
  | .null => [.null]
  | .bool b => [.bool b]
  | .number x => numberKinds x
  | .string s => [.string s]
  | _ => []

mutual

/-- The tokens that data are shown as. -/
def Datum.kinds : Datum → List TokenKind
  | .primitive value _ => value.kinds
  | .array items => .symbol .lbracket :: (separated (kindsIn items) ++ [.symbol .rbracket])
  | .object properties =>
    .symbol .lbrace :: (separated (kindsUnder properties) ++ [.symbol .rbrace])

def Datum.kindsIn : List Datum → List (List TokenKind)
  | [] => []
  | item :: rest => item.kinds :: kindsIn rest

def Datum.kindsUnder : List (String × Datum) → List (List TokenKind)
  | [] => []
  | (key, item) :: rest => (keyKind key :: .symbol .colon :: item.kinds) :: kindsUnder rest

end

theorem Datum.kindsIn_eq (items : List Datum) : kindsIn items = items.map kinds := by
  induction items with
  | nil => rfl
  | cons item items ih => rw [kindsIn, ih, List.map_cons]

theorem Datum.kindsUnder_eq (properties : List (String × Datum)) :
    kindsUnder properties = properties.map
      (keyed (fun property => keyKind property.1) fun property => property.2.kinds) := by
  induction properties with
  | nil => rfl
  | cons property properties ih => rw [kindsUnder, ih, List.map_cons]

/-- What a value without references needs to be read back from what it is shown as. -/
def Value.IsReadable : Value → Prop
  | .string s => IsQuotable s.toList
  | .number x => Number.ReadsBack x
  | _ => True

/-- What data need to be read back from what they are shown as. -/
abbrev Datum.IsReadable : Datum → Prop :=
  Datum.Every Value.IsReadable fun key => IsQuotable key.toList

/-! ### What is shown spells these tokens -/

section Spelling

theorem numberText_of_finite {x : Float} {negative : Bool} {m : Nat} {e : Int}
    (h : Number.Binary.ofFloat x = .finite negative m e) :
    numberText x = (if negative then ['-'] else []) ++ sizeText m e := by
  by_cases hm : m = 0
  · subst hm
    rw [Number.eq_zero_of_mantissa h, sizeText, if_pos rfl]
    cases negative <;> decide
  · rw [numberText, Number.beq_zero_of_mantissa hm h, Bool.false_and, if_neg Bool.false_ne_true,
      Number.text, h, sizeText, if_neg hm]
    dsimp only
    rw [if_neg hm, String.toList_append]
    cases negative <;> rfl

theorem writes_sizeText (m : Nat) (e : Int) : ∃ n, Number.Writes (sizeText m e) n := by
  rw [sizeText]
  split
  · refine ⟨⟨['0'], [], 0⟩, List.cons_ne_nil _ _, ?_, nofun, [], .none, rfl⟩
    intro c hmem
    rw [List.mem_singleton.mp hmem]
    rfl
  · exact Number.sizeText_writes m e

theorem Spells.signed {s : List Char} {k : TokenKind} (h : Spells s [k]) (hs : s.head? ≠ some '=')
    (negative : Bool) :
    Spells ((if negative then ['-'] else []) ++ s) (signedKinds negative k) := by
  obtain ⟨c, more, rfl, -⟩ := h.head
  cases negative with
  | false => exact h
  | true => exact h.minus fun heq => hs (congrArg some heq)

theorem spells_numberText (x : Float) : Spells (numberText x) (numberKinds x) := by
  rw [numberKinds]
  cases hparts : Number.Binary.ofFloat x with
  | nan =>
    obtain rfl : x = 0.0 / 0.0 := Number.ofFloat_injective (hparts.trans (by decide))
    exact spells_word (by decide) (by decide)
  | infinite negative =>
    have hword : Spells "Infinity".toList [.ident "Infinity"] :=
      spells_word (by decide) (by decide)
    have hsigned := hword.signed (by decide) negative
    obtain rfl : x = Number.withSign negative (1.0 / 0.0) := by
      apply Number.ofFloat_injective
      rw [hparts]
      cases negative <;> decide
    cases negative <;> exact hsigned
  | finite negative m e =>
    obtain ⟨n, hn⟩ := writes_sizeText m e
    rw [numberText_of_finite hparts]
    refine (spells_numeral hn).signed ?_ negative
    obtain ⟨c, more, heq, hc, -⟩ := hn.exists_digit
    rw [heq]
    exact fun hhead => Number.ne_of_holds (d := '=') hc rfl (Option.some.inj hhead)

theorem Value.spells {value : Value} (hplain : value.isPrimitive = true)
    (h : value.IsReadable) (heap : Heap) (levels : Nat) (above : List Place) :
    Spells (inspectWithin heap (levels + 1) above value) value.kinds := by
  cases value with
  | undefined => exact spells_word (by decide) (by decide)
  | null => exact spells_word (by decide) (by decide)
  | bool b => cases b <;> exact spells_word (by decide) (by decide)
  | number x => exact spells_numberText x
  | string s =>
    have hquoted := spells_quoted (isQuote_quoteMark h)
    rwa [String.ofList_toList] at hquoted
  | _ => cases hplain

variable {heap : Heap}

theorem inspectWithin_array {ref : Ref .array} {above : List Place} (levels : Nat)
    (hnew : ref.place ∉ above) :
    inspectWithin heap (levels + 1) above (.array ref) =
      enclosed '[' ']'
        ((heap.get ref).toList.map (inspectWithin heap levels (ref.place :: above))) := by
  conv_lhs => unfold inspectWithin
  exact if_neg hnew

theorem inspectWithin_object {ref : Ref .object} {above : List Place} (levels : Nat)
    (hnew : ref.place ∉ above) :
    inspectWithin heap (levels + 1) above (.object ref) =
      shownProperties (inspectWithin heap levels (ref.place :: above)) (heap.get ref) := by
  conv_lhs => unfold inspectWithin
  exact if_neg hnew

mutual

/-- **What is shown of a value spells the tokens of what it holds.** -/
theorem Datum.spells {d : Datum} {value : Value} (h : heap.Holds d value) (hd : d.IsReadable)
    {above : List Place} (hpath : heap.Path above d.size) {levels : Nat}
    (hlevels : heap.count .array + heap.count .object < levels + above.length) :
    Spells (inspectWithin heap levels above value) d.kinds := by
  have hlength := hpath.length_le
  obtain ⟨levels, rfl⟩ : ∃ n, levels = n + 1 := Nat.exists_eq_succ_of_ne_zero (by omega)
  match d, h with
  | .primitive plain hplain, h =>
    cases h
    exact Value.spells hplain hd heap levels above
  | .array items, hvalue =>
    have ⟨ref, heq, _, hitems⟩ := hvalue
    subst heq
    have hnew : ref.place ∉ above := hpath.notMem rfl hvalue
    have hinside := hpath.cons rfl hvalue (Nat.lt_add_of_pos_left Nat.one_pos)
    rw [inspectWithin_array levels hnew, Datum.kinds]
    refine spells_enclosed ?_ stands_lbracket stands_rbracket rfl rfl
    exact Datum.spellsIn hitems hd hinside (by rw [List.length_cons]; omega)
  | .object properties, hvalue =>
    have ⟨ref, heq, _, hproperties⟩ := hvalue
    subst heq
    have hnew : ref.place ∉ above := hpath.notMem rfl hvalue
    have hinside := hpath.cons rfl hvalue (Nat.lt_add_of_pos_left Nat.one_pos)
    rw [inspectWithin_object levels hnew, shownProperties, Datum.kinds]
    refine spells_enclosed ?_ stands_lbrace stands_rbrace rfl rfl
    exact Datum.spellsUnder hproperties hd hinside (by rw [List.length_cons]; omega)
termination_by structural d

theorem Datum.spellsIn {items : List Datum} {values : List Value} (h : heap.HoldsAll items values)
    (hitems : EveryIn Value.IsReadable (fun key => IsQuotable key.toList) items)
    {above : List Place} (hpath : heap.Path above (sizeAll items)) {levels : Nat}
    (hlevels : heap.count .array + heap.count .object < levels + above.length) :
    List.Forall₂ Spells (values.map (inspectWithin heap levels above)) (kindsIn items) := by
  match items, values, h with
  | [], [], _ => exact .nil
  | item :: items, value :: values, h =>
    exact .cons (Datum.spells h.1 hitems.1 (hpath.mono (Nat.le_add_right _ _)) hlevels)
      (Datum.spellsIn h.2 hitems.2 (hpath.mono (Nat.le_add_left _ _)) hlevels)
termination_by structural items

theorem Datum.spellsUnder {properties : List (String × Datum)} {entries : List (String × Value)}
    (h : heap.HoldsUnder properties entries)
    (hproperties : EveryUnder Value.IsReadable (fun key => IsQuotable key.toList) properties)
    {above : List Place} (hpath : heap.Path above (sizeUnder properties)) {levels : Nat}
    (hlevels : heap.count .array + heap.count .object < levels + above.length) :
    List.Forall₂ Spells
      (entries.map fun (key, value) =>
        keyText key ++ [':', ' '] ++ inspectWithin heap levels above value)
      (kindsUnder properties) := by
  match properties, entries, h with
  | [], [], _ => exact .nil
  | (key, item) :: properties, (_, value) :: entries, ⟨rfl, h⟩ =>
    have hvalue := Datum.spells h.1 hproperties.2.1 (hpath.mono (Nat.le_add_right _ _)) hlevels
    have hentry := (spells_key hproperties.1).between hvalue stands_colon rfl
    refine .cons ?_
      (Datum.spellsUnder h.2 hproperties.2.2 (hpath.mono (Nat.le_add_left _ _)) hlevels)
    dsimp only
    rwa [List.append_assoc]
termination_by structural properties

end

end Spelling

end Script

end Doctest
