import Doctest.Proofs.Number.Integers
import Doctest.Proofs.Script.Listing
import Doctest.Proofs.Script.RelativePositions
import Doctest.Proofs.Text.Searching

/-!
# Positions in strings

All methods of strings that take or give positions count characters, and so do the keys of
characters. So they agree: what is found at a position is what is sliced from there, and the
character under an index is the one that every other way to read one gives.
-/

namespace Doctest

theorem Text.slice_min {α : Type} (i j : Nat) (items : List α) :
    slice (min i items.length) (min j items.length) items = slice i j items := by
  rw [slice, slice]
  rcases Nat.le_total i items.length with hle | hle
  · rw [Nat.min_eq_left hle, List.take_eq_take_iff, List.length_drop]
    omega
  · rw [Nat.min_eq_right hle, List.drop_length, List.drop_of_length_le hle, List.take_nil,
      List.take_nil]

theorem Text.slice_one {α : Type} {items : List α} {i : Nat} {item : α}
    (h : items[i]? = some item) : slice i (i + 1) items = [item] := by
  rw [slice, Nat.add_sub_cancel_left, List.take_one, List.head?_drop, h]
  rfl

namespace Script

open Library Number

open Eval (Makes)

variable {x y : Float} {i j : Nat} {start : Machine}

/-! ### Numbers for positions -/

theorem positionOfNumber_of_isInteger (h : IsInteger x i) (length : Nat) :
    positionOfNumber x length = min i length := by
  have hposition := isPositionOf_positionOfNumber x length
  rw [IsPositionOf, h.2] at hposition
  dsimp only at hposition
  rwa [if_neg (Int.not_lt.mpr (Int.natCast_nonneg i)), Int.toNat_natCast] at hposition

theorem charAt_of_isInteger (h : IsInteger x i) (s : List Char) :
    charAt x s = s[i]?.toList := by
  rw [charAt, h.2]
  exact if_pos (ge_zero_of_isInteger h)

namespace Eval

/-- Reads what a value has under another one as a key, as scripts do in `target[key]`. -/
def readAt (target key : Value) : Eval Value := do
  property target (← text key)

theorem readAt_number (target : Value) {key : String} (h : Number.text x = key) :
    readAt target (.number x) = property target key := by
  rw [readAt, text_number, pure_bind, h]

end Eval

/-- That is what reading under a key comes to. -/
theorem evalExpr_index {invoke : Invoke} {scope : Scope} {target key : Expr} {value found : Value}
    {middle last : Machine} (span : Span)
    (htarget : evalExpr invoke scope target start = (.ok value, middle))
    (hkey : evalExpr invoke scope key middle = (.ok found, last)) :
    evalExpr invoke scope (.index target key span) start = Eval.readAt value found last := by
  rw [evalExpr, Eval.bind_apply, htarget]
  dsimp only
  rw [Eval.bind_apply, hkey]
  rfl

/-! ### What the methods give -/

section Methods

variable (s t : String)

theorem callStringMethod_indexOf :
    callStringMethod s .indexOf [.string t] =
      pure ((Text.indexOf? t.toList s.toList).elim (.number (-1.0)) numberOfNat) := by
  simp only [callStringMethod, List.getD_cons_zero, Eval.text_string, pure_bind]
  cases Text.indexOf? t.toList s.toList <;> rfl

theorem callStringMethod_includes :
    callStringMethod s .includes [.string t] =
      pure (.bool (Text.indexOf? t.toList s.toList).isSome) := by
  simp only [callStringMethod, List.getD_cons_zero, Eval.text_string, pure_bind]
  rfl

theorem callStringMethod_startsWith :
    callStringMethod s .startsWith [.string t] = pure (.bool (t.toList.isPrefixOf s.toList)) := by
  simp only [callStringMethod, List.getD_cons_zero, Eval.text_string, pure_bind]

theorem callStringMethod_endsWith :
    callStringMethod s .endsWith [.string t] = pure (.bool (t.toList.isSuffixOf s.toList)) := by
  simp only [callStringMethod, List.getD_cons_zero, Eval.text_string, pure_bind]

theorem callStringMethod_split :
    callStringMethod s .split [.string t] = newTexts (split (some t.toList) s.toList) := by
  simp only [callStringMethod, List.getD_cons_zero, Eval.text_string, pure_bind]
  rw [if_neg nofun]
  rfl

end Methods

namespace Eval.Makes

variable {levels : Nat} {s : String}

/-- A method of a string that has no effects. -/
theorem stringMethod {args : List Value} {value : Value} (method : StringMethod)
    (h : Library.callStringMethod s method args = Pure.pure value) :
    Makes (fun _ => (· = value)) start
      (callMethod (Script.invoke (levels + 1)) (.string s) method.name args) :=
  callStringMethod method fun _ => h ▸ .pure rfl

/-- The characters from one integer up to another one. -/
theorem sliceBetween (hx : IsInteger x i) (hy : IsInteger y j) :
    Makes (fun _ => (· = .string (String.ofList (Text.slice i j s.toList)))) start
      (callMethod (Script.invoke (levels + 1)) (.string s) "slice" [.number x, .number y]) := by
  refine .stringMethod .slice ?_
  rw [← Text.slice_min, ← positionOfNumber_of_isInteger hx, ← positionOfNumber_of_isInteger hy]
  rfl

theorem sliceFromInteger (hx : IsInteger x i) :
    Makes (fun _ => (· = .string (String.ofList (s.toList.drop i)))) start
      (callMethod (Script.invoke (levels + 1)) (.string s) "slice" [.number x]) := by
  have hdrop : s.toList.drop (positionOfNumber x s.toList.length) = s.toList.drop i := by
    rw [positionOfNumber_of_isInteger hx]
    rcases Nat.le_total i s.toList.length with hle | hle
    · rw [Nat.min_eq_left hle]
    · rw [Nat.min_eq_right hle, List.drop_length, List.drop_of_length_le hle]
  refine .stringMethod .slice ?_
  rw [← hdrop, ← Text.slice_length]
  rfl

theorem charAtInteger (hx : IsInteger x i) :
    Makes (fun _ => (· = .string (String.ofList s.toList[i]?.toList))) start
      (callMethod (Script.invoke (levels + 1)) (.string s) "charAt" [.number x]) := by
  refine .stringMethod .charAt ?_
  rw [← charAt_of_isInteger hx]
  rfl

/-- The pieces of a string, as strings in a new array. -/
theorem split (s separator : String) :
    Makes (fun heap => heap.IsArrayOf
      (((Library.split (some separator.toList) s.toList).map String.ofList).map .string)) start
      (callMethod (Script.invoke (levels + 1)) (.string s) "split" [.string separator]) := by
  refine callStringMethod .split fun middle => ?_
  rw [callStringMethod_split, newTexts, List.map_map]
  exact arrayOf _

end Eval.Makes

/-! ### Main result -/

/-- The characters of a string from a position on, as many as another one has. -/
def partAt (s t : String) (i : Nat) : String :=
  String.ofList (Text.slice i (i + t.length) s.toList)

/-- How the methods of a string `s` agree on where another one `t` stands in it: `found` is what
searching for it gives. -/
structure LooksFor (call : String → List Value → Eval Value) (start : Machine) (s t : String)
    (found : Value) : Prop where
  slice : ∀ (i : Nat) (x y : Float), IsInteger x i → IsInteger y (i + t.length : Nat) →
    Makes (fun _ => (· = .string (partAt s t i))) start (call "slice" [.number x, .number y])
  sliceFrom : ∀ x, t.length ≤ s.length → IsInteger x (s.length - t.length : Nat) →
    Makes (fun _ => (· = .string (partAt s t (s.length - t.length)))) start
      (call "slice" [.number x])
  indexOf : Makes (fun _ => (· = found)) start (call "indexOf" [.string t])
  found_eq : found = .number (-1.0) ∧ (∀ i, partAt s t i ≠ t) ∨
    ∃ i, found = numberOfNat i ∧ IsLeast {j | partAt s t j = t} i
  includes : Makes (fun _ => (· = .bool (found ≠ .number (-1.0)))) start
    (call "includes" [.string t])
  startsWith : Makes (fun _ => (· = .bool (found = .number 0.0))) start
    (call "startsWith" [.string t])
  endsWith : Makes (fun _ => (· = .bool (t.length ≤ s.length ∧
    partAt s t (s.length - t.length) = t))) start (call "endsWith" [.string t])

/-- How the ways to read one character of a string agree. Characters are keyed by texts, and so
`target[x]` reads at an index that the number `x` is if its digits are the text of the number. -/
structure ReadsCharacters (call : String → List Value → Eval Value) (start : Machine)
    (s : String) : Prop where
  length : Makes (fun _ => (· = numberOfNat s.length)) start (Eval.property (.string s) "length")
  pieces : Makes (fun _ => (· = numberOfNat s.length)) start (do
    Eval.property (← call "split" [.string ""]) "length")
  character : ∀ i < s.length, ∃ c, s.toList[i]? = some c ∧
    ∀ x y, IsInteger x i → IsInteger y (i + 1 : Nat) →
      Makes (fun _ => (· = .string (String.singleton c))) start (call "charAt" [.number x]) ∧
      Makes (fun _ => (· = .string (String.singleton c))) start
        (call "slice" [.number x, .number y]) ∧
      (i < 2 ^ 64 → Number.text x = toString i →
        Makes (fun _ => (· = .string (String.singleton c))) start
          (Eval.readAt (.string s) (.number x)) ∧
        Makes (fun _ => (· = .string (String.singleton c))) start (do
          Eval.readAt (← call "split" [.string ""]) (.number x)))

section Places

variable {s t : String}

theorem partAt_eq_iff (hi : i ≤ s.length) :
    partAt s t i = t ↔ Text.StandsAt t.toList s.toList i := by
  rw [← Text.slice_eq_iff hi, partAt, ← String.toList_inj, String.toList_ofList]
  exact Iff.rfl

/-- Behind the end of a string there is only the empty one. -/
theorem partAt_of_length_lt (hi : s.length < i) : partAt s t i = "" := by
  rw [partAt, Text.slice, List.drop_of_length_le (Nat.le_of_lt hi), List.take_nil]

/-- What is as long as the rest of a string is at its position the rest of the string. -/
theorem partAt_last (h : t.length ≤ s.length) :
    partAt s t (s.length - t.length) = String.ofList (s.toList.drop (s.length - t.length)) := by
  rw [partAt, Nat.sub_add_cancel h]
  exact congrArg String.ofList (Text.slice_length _ s.toList)

/-- What is searched for is found at the least position at which it is sliced. -/
theorem isLeast_partAt (h : Text.indexOf? t.toList s.toList = some i) :
    IsLeast {j | partAt s t j = t} i := by
  obtain ⟨hstands, hleast⟩ := Text.indexOf?_eq_some_iff.mp h
  have hle : i ≤ s.length := (Nat.le_add_right _ _).trans hstands.le_length
  refine ⟨(partAt_eq_iff hle).mpr hstands, fun j hj => ?_⟩
  rcases Nat.lt_or_ge s.length j with hlt | hge
  · exact hle.trans (Nat.le_of_lt hlt)
  · exact hleast ((partAt_eq_iff hge).mp hj)

theorem partAt_ne (h : Text.indexOf? t.toList s.toList = none) (i : Nat) : partAt s t i ≠ t := by
  have hnone := Text.infix_iff_standsAt.not.mp (Text.indexOf?_eq_none_iff.mp h)
  intro hpart
  rcases Nat.lt_or_ge s.length i with hlt | hge
  · obtain rfl : "" = t := (partAt_of_length_lt hlt).symm.trans hpart
    exact hnone ⟨0, Text.standsAt_zero.mpr List.nil_prefix⟩
  · exact hnone ⟨i, (partAt_eq_iff hge).mp hpart⟩

/-- What is given for the position of a text in another one. -/
def foundAt (s t : String) : Value :=
  (Text.indexOf? t.toList s.toList).elim (.number (-1.0)) numberOfNat

theorem foundAt_ne_iff : foundAt s t ≠ .number (-1.0) ↔
    (Text.indexOf? t.toList s.toList).isSome = true := by
  unfold foundAt
  cases Text.indexOf? t.toList s.toList with
  | none => exact iff_of_false (fun h => h rfl) nofun
  | some i => exact iff_of_true (numberOfNat_ne i) rfl

theorem numberOfNat_zero : numberOfNat 0 = .number 0.0 :=
  congrArg Value.number (by decide +kernel)

theorem foundAt_eq_zero_iff : foundAt s t = .number 0.0 ↔ t.toList.isPrefixOf s.toList = true := by
  rw [List.isPrefixOf_iff_prefix, ← Text.standsAt_zero, foundAt, ← numberOfNat_zero]
  cases hfound : Text.indexOf? t.toList s.toList with
  | none =>
    have hnone := Text.infix_iff_standsAt.not.mp (Text.indexOf?_eq_none_iff.mp hfound)
    exact iff_of_false (numberOfNat_zero ▸ by decide +kernel) fun h => hnone ⟨0, h⟩
  | some i =>
    obtain ⟨hstands, hleast⟩ := Text.indexOf?_eq_some_iff.mp hfound
    constructor
    · intro heq
      rcases Nat.eq_zero_or_pos i with rfl | hpos
      · exact hstands
      · exact absurd (Value.number.inj heq) (ofNat_ne_zero hpos)
    · intro h
      obtain rfl := Nat.le_zero.mp (hleast h)
      rfl

theorem isSuffixOf_iff_partAt : t.toList.isSuffixOf s.toList = true ↔
    t.length ≤ s.length ∧ partAt s t (s.length - t.length) = t := by
  rw [List.isSuffixOf_iff_suffix, Text.suffix_iff_standsAt]
  exact and_congr_right fun _ => (partAt_eq_iff (Nat.sub_le _ _)).symm

end Places

theorem looksFor (levels : Nat) (s t : String) (start : Machine) :
    LooksFor (Eval.callMethod (invoke (levels + 1)) (.string s)) start s t (foundAt s t) where
  slice i x y hx hy := .sliceBetween hx hy
  sliceFrom x hle hx := partAt_last hle ▸ .sliceFromInteger hx
  indexOf := .stringMethod .indexOf (callStringMethod_indexOf s t)
  found_eq := by
    rw [foundAt]
    cases hfound : Text.indexOf? t.toList s.toList with
    | none => exact .inl ⟨rfl, partAt_ne hfound⟩
    | some i => exact .inr ⟨i, rfl, isLeast_partAt hfound⟩
  includes := by
    refine .stringMethod .includes ?_
    rw [callStringMethod_includes, decide_eq_decide.mpr foundAt_ne_iff, Bool.decide_coe]
  startsWith := by
    refine .stringMethod .startsWith ?_
    rw [callStringMethod_startsWith, decide_eq_decide.mpr foundAt_eq_zero_iff, Bool.decide_coe]
  endsWith := by
    refine .stringMethod .endsWith ?_
    rw [callStringMethod_endsWith, ← decide_eq_decide.mpr isSuffixOf_iff_partAt, Bool.decide_coe]

/-- An empty separator parts all characters. -/
theorem split_empty (s : String) :
    (Library.split (some "".toList) s.toList).map String.ofList =
      s.toList.map String.singleton := by
  change (s.toList.map ([·])).map String.ofList = _
  rw [List.map_map]
  exact List.map_congr_left fun c _ => String.singleton_eq_ofList.symm

theorem readsCharacters (levels : Nat) (s : String) (start : Machine) :
    ReadsCharacters (Eval.callMethod (invoke (levels + 1)) (.string s)) start s where
  length := .pure rfl
  pieces := by
    refine (Makes.split s "").bind fun pieces middle _ hpieces => ?_
    obtain ⟨ref, rfl, -, hitems⟩ := hpieces
    refine ⟨_, middle, rfl, .refl _, rfl, ?_⟩
    rw [← Array.length_toList, hitems, split_empty, List.length_map, List.length_map,
      String.length_toList]
  character i hi := by
    obtain ⟨c, hc⟩ : ∃ c, s.toList[i]? = some c := ⟨_, List.getElem?_eq_getElem hi⟩
    refine ⟨c, hc, fun x y hx hy => ⟨?_, ?_, fun hsmall htext => ⟨?_, ?_⟩⟩⟩
    · have hchar : String.ofList s.toList[i]?.toList = String.singleton c := by rw [hc]; rfl
      exact hchar ▸ .charAtInteger hx
    · have hslice : String.ofList (Text.slice i (i + 1) s.toList) = String.singleton c := by
        rw [Text.slice_one hc]; rfl
      exact hslice ▸ .sliceBetween hx hy
    · have hindex : i < Nat.pow 2 64 := hsmall
      rw [Eval.readAt_number _ htext]
      refine ⟨_, start, Eval.property_character start s i, .refl _, rfl, ?_⟩
      rw [if_pos hindex, hc]
      rfl
    · refine (Makes.split s "").bind fun pieces middle _ hpieces => ?_
      obtain ⟨ref, rfl, -, hitems⟩ := hpieces
      have hindex : i < Nat.pow 2 64 := hsmall
      rw [Eval.readAt_number _ htext]
      refine ⟨_, middle, Eval.property_item middle ref i, .refl _, rfl, ?_⟩
      rw [if_pos hindex, Array.getD_eq_getD_getElem?, ← Array.getElem?_toList, hitems, split_empty,
        List.getElem?_map, List.getElem?_map, hc]
      rfl

/-- **Positions in strings.** Searching a string for another one gives the least position at which
that is sliced from it, or minus one where that is no part of it at all, and the string includes,
starts with and ends with the other one accordingly. Each character is the same one-character string
under its index, by `charAt`, by `slice` and among the pieces between empty separators, of which
there are as many as characters. Natural numbers of at most fifty-three bits are numbers of scripts,
and are written with their digits as the keys of characters are. -/
theorem string_methods_agree (levels : Nat) (s t : String) (start : Machine) :
    (∃ found, LooksFor (Eval.callMethod (invoke (levels + 1)) (.string s)) start s t found) ∧
      ReadsCharacters (Eval.callMethod (invoke (levels + 1)) (.string s)) start s ∧
      ∀ n < 2 ^ 53, IsInteger (Float.ofNat n) n ∧
        ∀ x, IsInteger x n → Number.text x = toString n :=
  ⟨⟨_, looksFor levels s t start⟩, readsCharacters levels s start,
    fun _ hn => ⟨isInteger_ofNat hn, fun _ hx => text_of_isInteger hx hn⟩⟩

end Script

end Doctest
