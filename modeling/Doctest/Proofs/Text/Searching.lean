import Doctest.Text.Search
import Mathlib.Data.List.Infix
import Mathlib.Order.Bounds.Basic

/-!
# Where a text stands in another one

A search gives the least position at which the needle stands. A separator that is not empty parts a
text at the leftmost of its places, and what is behind that place is parted likewise: so no piece
contains the separator, and the pieces with the separator between them are the text again.
-/

namespace Doctest.Text

variable {needle separator text front rest : List Char} {pieces : List (List Char)} {c : Char}
  {i : Nat}

/-! ### Places -/

/-- A text stands in another one behind so many of its characters. -/
def StandsAt (needle text : List Char) (i : Nat) : Prop :=
  ∃ front back, text = front ++ needle ++ back ∧ front.length = i

theorem infix_iff_standsAt : needle <:+: text ↔ ∃ i, StandsAt needle text i := by
  constructor
  · rintro ⟨front, back, rfl⟩
    exact ⟨_, front, back, rfl, rfl⟩
  · rintro ⟨_, front, back, rfl, -⟩
    exact ⟨front, back, rfl⟩

theorem standsAt_zero : StandsAt needle text 0 ↔ needle <+: text := by
  constructor
  · rintro ⟨front, back, rfl, hlength⟩
    obtain rfl := List.length_eq_zero_iff.mp hlength
    exact ⟨back, rfl⟩
  · rintro ⟨back, rfl⟩
    exact ⟨[], back, rfl, rfl⟩

theorem standsAt_succ : StandsAt needle (c :: text) (i + 1) ↔ StandsAt needle text i := by
  constructor
  · rintro ⟨front, back, heq, hlength⟩
    cases front with
    | nil => cases hlength
    | cons d front => exact ⟨front, back, (List.cons.inj heq).2, Nat.succ.inj hlength⟩
  · rintro ⟨front, back, rfl, rfl⟩
    exact ⟨c :: front, back, rfl, rfl⟩

/-- A text stands at a position if the characters from there on, as many as it has, are its own. -/
theorem slice_eq_iff (hi : i ≤ text.length) :
    slice i (i + needle.length) text = needle ↔ StandsAt needle text i := by
  rw [slice, Nat.add_sub_cancel_left]
  constructor
  · intro hslice
    refine ⟨text.take i, (text.drop i).drop needle.length, ?_, List.length_take_of_le hi⟩
    calc text
      _ = text.take i ++ text.drop i := (List.take_append_drop i text).symm
      _ = text.take i ++ ((text.drop i).take needle.length ++ (text.drop i).drop needle.length) :=
        congrArg _ (List.take_append_drop needle.length _).symm
      _ = text.take i ++ needle ++ (text.drop i).drop needle.length := by
        rw [hslice, List.append_assoc]
  · rintro ⟨front, back, rfl, rfl⟩
    rw [List.append_assoc, List.drop_left, List.take_left]

theorem StandsAt.le_length (h : StandsAt needle text i) : i + needle.length ≤ text.length := by
  obtain ⟨front, back, rfl, rfl⟩ := h
  rw [List.length_append, List.length_append]
  exact Nat.le_add_right _ _

theorem suffix_iff_standsAt :
    needle <:+ text ↔ needle.length ≤ text.length ∧
      StandsAt needle text (text.length - needle.length) := by
  constructor
  · rintro ⟨front, rfl⟩
    rw [List.length_append, Nat.add_sub_cancel]
    exact ⟨Nat.le_add_left _ _, front, [], (List.append_nil _).symm, rfl⟩
  · rintro ⟨hle, front, back, rfl, hlength⟩
    rw [List.length_append, List.length_append] at hlength
    obtain rfl : back = [] := List.length_eq_zero_iff.mp (by omega)
    exact ⟨front, (List.append_nil _).symm⟩

/-! ### The least place -/

/-- The least place is found, if there is one. -/
theorem indexOf?_spec (needle text : List Char) :
    match indexOf? needle text with
    | some i => IsLeast {i | StandsAt needle text i} i
    | none => ∀ i, ¬ StandsAt needle text i := by
  induction text with
  | nil =>
    rw [indexOf?]
    split_ifs with hempty
    · obtain rfl := List.isEmpty_iff.mp hempty
      exact ⟨⟨[], [], rfl, rfl⟩, fun _ _ => Nat.zero_le _⟩
    · intro i h
      have hle := h.le_length
      rw [List.isEmpty_iff] at hempty
      exact hempty (List.length_eq_zero_iff.mp (Nat.eq_zero_of_add_eq_zero (Nat.le_zero.mp hle)).2)
  | cons c text ih =>
    rw [indexOf?]
    split_ifs with hprefix
    · exact ⟨standsAt_zero.mpr (List.isPrefixOf_iff_prefix.mp hprefix), fun _ _ => Nat.zero_le _⟩
    have hzero : ¬ StandsAt needle (c :: text) 0 := fun h =>
      hprefix (List.isPrefixOf_iff_prefix.mpr (standsAt_zero.mp h))
    cases hfound : indexOf? needle text with
    | none =>
      rw [hfound] at ih
      rintro (_ | i) h
      · exact hzero h
      · exact ih i (standsAt_succ.mp h)
    | some i =>
      rw [hfound] at ih
      refine ⟨standsAt_succ.mpr ih.1, ?_⟩
      rintro (_ | j) h
      · exact absurd h hzero
      · exact Nat.succ_le_succ (ih.2 (standsAt_succ.mp h))

theorem indexOf?_eq_some_iff :
    indexOf? needle text = some i ↔ IsLeast {i | StandsAt needle text i} i := by
  have hspec := indexOf?_spec needle text
  constructor
  · intro hfound
    rwa [hfound] at hspec
  · intro hleast
    cases hfound : indexOf? needle text with
    | none =>
      rw [hfound] at hspec
      exact absurd hleast.1 (hspec i)
    | some j =>
      rw [hfound] at hspec
      rw [hspec.unique hleast]

theorem indexOf?_eq_none_iff : indexOf? needle text = none ↔ ¬ needle <:+: text := by
  have hspec := indexOf?_spec needle text
  rw [infix_iff_standsAt]
  cases hfound : indexOf? needle text with
  | none =>
    rw [hfound] at hspec
    exact iff_of_true rfl fun ⟨i, h⟩ => hspec i h
  | some i =>
    rw [hfound] at hspec
    exact iff_of_false nofun fun hnone => hnone ⟨i, hspec.1⟩

/-! ### Pieces between separators -/

/-- The pieces of a text between the leftmost places of a separator that do not overlap. -/
inductive PartedAt (separator : List Char) : List Char → List (List Char) → Prop
  | last {text : List Char} (hnone : ¬ separator <:+: text) : PartedAt separator text [text]
  | cut {front rest : List Char} {pieces : List (List Char)}
    (hfirst : IsLeast {i | StandsAt separator (front ++ separator ++ rest) i} front.length)
    (hrest : PartedAt separator rest pieces) :
    PartedAt separator (front ++ separator ++ rest) (front :: pieces)

theorem PartedAt.ne_nil (h : PartedAt separator text pieces) : pieces ≠ [] := by
  cases h <;> exact List.cons_ne_nil _ _

/-- There is one way only to part a text. -/
theorem PartedAt.unique {others : List (List Char)} (h : PartedAt separator text pieces)
    (h' : PartedAt separator text others) : pieces = others := by
  induction h generalizing others with
  | last hnone =>
    cases h' with
    | last => rfl
    | cut => exact absurd ⟨_, _, rfl⟩ hnone
  | @cut front rest pieces hfirst _ ih =>
    generalize hwhole : front ++ separator ++ rest = whole at h' hfirst
    cases h' with
    | last hnone => exact absurd ⟨_, _, hwhole⟩ hnone
    | cut hfirst' hrest' =>
      obtain ⟨hfront, hrest⟩ := List.append_inj (List.append_assoc _ _ _ ▸
        List.append_assoc _ _ _ ▸ hwhole) (hfirst.unique hfirst')
      obtain rfl := hfront
      obtain rfl := List.append_cancel_left hrest
      rw [ih hrest']

theorem PartedAt.not_infix (hne : separator ≠ []) (h : PartedAt separator text pieces) :
    ∀ piece ∈ pieces, ¬ separator <:+: piece := by
  induction h with
  | last hnone => exact List.forall_mem_singleton.mpr hnone
  | @cut front rest pieces hfirst _ ih =>
    refine List.forall_mem_cons.mpr ⟨?_, ih⟩
    rintro ⟨before, behind, rfl⟩
    have hearlier : StandsAt separator (before ++ separator ++ behind ++ separator ++ rest)
        before.length := ⟨before, behind ++ separator ++ rest, by simp, rfl⟩
    have hle := hfirst.2 hearlier
    have hpos := List.length_pos_iff.mpr hne
    rw [List.length_append, List.length_append] at hle
    omega

theorem PartedAt.intercalate_eq (h : PartedAt separator text pieces) :
    separator.intercalate pieces = text := by
  induction h with
  | last => exact List.intercalate_singleton
  | cut _ hrest ih => rw [List.intercalate_cons_of_ne_nil hrest.ne_nil, ih]

/-- Characters that are passed over are dropped. -/
theorem splitAround_drop (skip : Nat) (text : List Char) :
    splitAround separator skip text = splitAround separator 0 (text.drop skip) := by
  induction text generalizing skip with
  | nil => cases skip <;> rfl
  | cons c text ih =>
    cases skip with
    | zero => rfl
    | succ skip => exact ih skip

theorem splitAround_of_not_infix (h : ¬ separator <:+: text) :
    splitAround separator 0 text = [text] := by
  induction text with
  | nil => rfl
  | cons c text ih =>
    have hprefix : separator.isPrefixOf (c :: text) ≠ true := fun hprefix =>
      h (List.isPrefixOf_iff_prefix.mp hprefix).isInfix
    rw [splitAround, if_neg hprefix, ih fun hinfix => h (List.infix_cons hinfix)]

theorem splitAround_append (hne : separator ≠ [])
    (hfirst : IsLeast {i | StandsAt separator (front ++ separator ++ rest) i} front.length) :
    splitAround separator 0 (front ++ separator ++ rest) =
      front :: splitAround separator 0 rest := by
  induction front with
  | nil =>
    obtain ⟨c, behind, rfl⟩ := List.exists_cons_of_ne_nil hne
    have hprefix : (c :: behind).isPrefixOf (c :: (behind ++ rest)) = true :=
      List.isPrefixOf_iff_prefix.mpr ⟨rest, rfl⟩
    change splitAround (c :: behind) 0 (c :: (behind ++ rest)) = _
    rw [splitAround, if_pos hprefix, splitAround_drop, List.length_cons, Nat.add_sub_cancel,
      List.drop_left]
  | cons c front ih =>
    have hbehind : IsLeast {i | StandsAt separator (front ++ separator ++ rest) i} front.length :=
      ⟨standsAt_succ.mp hfirst.1, fun i h => Nat.le_of_succ_le_succ (hfirst.2 (standsAt_succ.mpr h))⟩
    have hprefix : separator.isPrefixOf (c :: (front ++ separator ++ rest)) ≠ true := fun hprefix =>
      absurd (hfirst.2 (standsAt_zero.mpr (List.isPrefixOf_iff_prefix.mp hprefix)))
        (Nat.not_succ_le_zero _)
    change splitAround separator 0 (c :: (front ++ separator ++ rest)) = _
    rw [splitAround, if_neg hprefix, ih hbehind]

/-- A text is parted at the leftmost places of the separator. -/
theorem partedAt_splitOn (hne : separator ≠ []) (text : List Char) :
    PartedAt separator text (splitOn separator text) := by
  -- The text behind the first place is shorter than the text by the separator at least.
  induction hlength : text.length using Nat.strongRecOn generalizing text with
  | ind n ih =>
    have hspec := indexOf?_spec separator text
    cases hfound : indexOf? separator text with
    | none =>
      have hnone := indexOf?_eq_none_iff.mp hfound
      rw [splitOn, splitAround_of_not_infix hnone]
      exact .last hnone
    | some i =>
      rw [hfound] at hspec
      obtain ⟨front, rest, rfl, rfl⟩ := hspec.1
      have hshorter : rest.length < n := by
        have hpos := List.length_pos_iff.mpr hne
        rw [List.length_append, List.length_append] at hlength
        omega
      rw [splitOn, splitAround_append hne hspec]
      exact .cut hspec (ih _ hshorter rest rfl)

end Doctest.Text
