import Doctest.Text.Blank
import Mathlib.Data.List.Infix
import Mathlib.Data.List.TakeWhile

/-!
# Trimmed texts and spaces between them

A text is trimmed if there is no blank at either of its ends. Trimmed texts that are put together
with spaces are trimmed as a whole, and trimming takes away the spaces around empty ones.
-/

namespace Doctest.Text

variable {c : Char} {s t : List Char}

/-! ### Trimming -/

/-- No blank is at either end of a text. -/
structure IsTrimmed (s : List Char) : Prop where
  head : ∀ c ∈ s.head?, isBlank c = false
  last : ∀ c ∈ s.getLast?, isBlank c = false

theorem isTrimmed_nil : IsTrimmed [] :=
  ⟨nofun, nofun⟩

theorem IsTrimmed.of_forall (h : ∀ c ∈ s, isBlank c = false) : IsTrimmed s where
  head c hc := h c (List.mem_of_mem_head? hc)
  last c hc := h c (List.mem_of_mem_getLast? hc)

theorem dropWhile_isBlank_eq_self (h : ∀ c ∈ s.head?, isBlank c = false) :
    s.dropWhile isBlank = s := by
  cases s with
  | nil => rfl
  | cons c s =>
    have hc : ¬ isBlank c = true := by
      rw [h c rfl]
      exact Bool.false_ne_true
    exact List.dropWhile_cons_of_neg hc

/-- Nothing is taken away from a trimmed text. -/
theorem IsTrimmed.trim_eq (h : IsTrimmed s) : trim s = s := by
  have hback : ∀ c ∈ s.reverse.head?, isBlank c = false := by
    rw [List.head?_reverse]
    exact h.last
  rw [trim, trimStart, trimEnd, dropWhile_isBlank_eq_self h.head,
    dropWhile_isBlank_eq_self hback, List.reverse_reverse]

theorem isBlank_of_mem_head?_dropWhile (h : c ∈ (s.dropWhile isBlank).head?) :
    isBlank c = false := by
  have hnot := List.head?_dropWhile_not isBlank s
  rwa [Option.mem_def.mp h] at hnot

/-- A text without its trailing blanks is at the front of it. -/
theorem trimEnd_prefix (s : List Char) : trimEnd s <+: s := by
  rw [trimEnd, ← List.reverse_suffix, List.reverse_reverse]
  exact List.dropWhile_suffix isBlank

theorem isTrimmed_trim (s : List Char) : IsTrimmed (trim s) where
  head c hc := by
    obtain ⟨behind, hbehind⟩ := trimEnd_prefix (trimStart s)
    refine isBlank_of_mem_head?_dropWhile (s := s) ?_
    change c ∈ (trimStart s).head?
    rw [← hbehind, List.head?_append, ← trim, Option.mem_def.mp hc]
    rfl
  last c hc := by
    rw [trim, trimEnd, List.getLast?_reverse] at hc
    exact isBlank_of_mem_head?_dropWhile hc

theorem trim_cons (hc : isBlank c = true) (s : List Char) : trim (c :: s) = trim s := by
  rw [trim, trim, trimStart, List.dropWhile_cons_of_pos hc]
  rfl

theorem trim_concat (hc : isBlank c = true) (s : List Char) : trim (s ++ [c]) = trim s := by
  induction s with
  | nil => exact trim_cons hc []
  | cons d s ih =>
    by_cases hd : isBlank d = true
    · rw [List.cons_append, trim_cons hd, trim_cons hd, ih]
    · rw [List.cons_append, trim, trim, trimStart, trimStart, List.dropWhile_cons_of_neg hd,
        List.dropWhile_cons_of_neg hd, trimEnd, trimEnd, ← List.cons_append, List.reverse_concat,
        List.dropWhile_cons_of_pos hc]

/-- Trimming takes away the blanks around a trimmed text. -/
theorem IsTrimmed.trim_between {front own behind : List Char} (h : IsTrimmed own)
    (hfront : ∀ c ∈ front, isBlank c = true) (hbehind : ∀ c ∈ behind, isBlank c = true) :
    trim (front ++ own ++ behind) = own := by
  induction front with
  | nil =>
    induction behind using List.reverseRecOn with
    | nil => rw [List.append_nil, List.nil_append, h.trim_eq]
    | append_singleton behind c ih =>
      obtain ⟨hbehind, hc⟩ := List.forall_mem_append.mp hbehind
      rw [← List.append_assoc, trim_concat (hc c List.mem_cons_self), ih hbehind]
  | cons c front ih =>
    obtain ⟨hc, hfront⟩ := List.forall_mem_cons.mp hfront
    rw [List.cons_append, List.cons_append, trim_cons hc, ih hfront]

/-- A character that is no blank is not taken away. -/
theorem mem_trim (hc : isBlank c = false) (hmem : c ∈ s) : c ∈ trim s := by
  have hdrop {t : List Char} (hmem : c ∈ t) : c ∈ t.dropWhile isBlank := by
    rw [← List.takeWhile_append_dropWhile (p := isBlank) (l := t)] at hmem
    refine (List.mem_append.mp hmem).resolve_left fun hblank => ?_
    rw [List.mem_takeWhile_imp hblank] at hc
    cases hc
  exact List.mem_reverse.mpr (hdrop (List.mem_reverse.mpr (hdrop hmem)))

/-- Between two trimmed texts anything may stand. -/
theorem IsTrimmed.append (hs : IsTrimmed s) (hne : s ≠ []) (between : List Char)
    (ht : IsTrimmed t) (hne' : t ≠ []) : IsTrimmed (s ++ between ++ t) where
  head c hc := by
    rw [List.append_assoc, List.head?_append_of_ne_nil s hne] at hc
    exact hs.head c hc
  last c hc := by
    rw [List.getLast?_append_of_ne_nil _ hne'] at hc
    exact ht.last c hc

/-! ### Single spaces -/

/-- The texts that are not empty, with single spaces between them. -/
def joined (parts : List (List Char)) : List Char :=
  [' '].intercalate (parts.filter (!·.isEmpty))

variable {words : List (List Char)}

theorem intercalate_concat (hne : words ≠ []) (word : List Char) :
    [' '].intercalate (words ++ [word]) = [' '].intercalate words ++ [' '] ++ word := by
  induction words with
  | nil => exact absurd rfl hne
  | cons first words ih =>
    cases words with
    | nil => simp [List.intercalate_cons_cons]
    | cons second words =>
      rw [List.cons_append, List.cons_append, List.intercalate_cons_cons, ← List.cons_append,
        ih (List.cons_ne_nil _ _), List.intercalate_cons_cons]
      simp only [List.append_assoc]

/-- Words with spaces between them are trimmed, and not empty if there are any. -/
theorem isTrimmed_intercalate (h : ∀ word ∈ words, word ≠ [] ∧ IsTrimmed word) :
    IsTrimmed ([' '].intercalate words) ∧ (words ≠ [] → [' '].intercalate words ≠ []) := by
  induction words with
  | nil => exact ⟨isTrimmed_nil, fun hne => absurd rfl hne⟩
  | cons word words ih =>
    obtain ⟨⟨hne, htrimmed⟩, hwords⟩ := List.forall_mem_cons.mp h
    obtain ⟨hrest, hsome⟩ := ih hwords
    cases words with
    | nil => simpa using And.intro htrimmed hne
    | cons second words =>
      rw [List.intercalate_cons_cons]
      refine ⟨htrimmed.append hne [' '] hrest (hsome (List.cons_ne_nil _ _)), fun _ => ?_⟩
      simp [hne]

/-- Behind trimmed texts, trimming takes away one space and an empty text, or nothing. -/
theorem trim_joined_append {parts : List (List Char)} (hparts : ∀ part ∈ parts, IsTrimmed part)
    {last : List Char} (hlast : IsTrimmed last) :
    trim (joined parts ++ ' ' :: last) = joined (parts ++ [last]) := by
  have hspace : isBlank ' ' = true := by decide
  have hwords : ∀ word ∈ parts.filter (!·.isEmpty), word ≠ [] ∧ IsTrimmed word := by
    intro word hmem
    obtain ⟨hin, hsome⟩ := List.mem_filter.mp hmem
    exact ⟨by simpa using hsome, hparts word hin⟩
  obtain ⟨htrimmed, hsome⟩ := isTrimmed_intercalate hwords
  unfold joined
  rw [List.filter_append]
  by_cases hempty : last = []
  · subst hempty
    rw [trim_concat hspace, htrimmed.trim_eq]
    simp
  · have hkept : [last].filter (!·.isEmpty) = [last] := by simp [hempty]
    rw [hkept]
    by_cases hnone : parts.filter (!·.isEmpty) = []
    · rw [hnone, List.intercalate_nil, List.nil_append, trim_cons hspace, hlast.trim_eq,
        List.nil_append, List.intercalate_singleton]
    · rw [intercalate_concat hnone, ← (htrimmed.append (hsome hnone) [' '] hlast hempty).trim_eq]
      simp only [List.append_assoc, List.cons_append, List.nil_append]

theorem joined_singleton (s : List Char) : joined [s] = s := by
  cases s with
  | nil => rfl
  | cons c s => simp [joined]

end Doctest.Text
