import Mathlib.Data.List.Basic
import Doctest.Text.Blank
import Doctest.Text.Lines

/-!
# Cutting a text into lines

The lines of a text are exactly the sequences of lines of which all but the last are terminated.
Cutting and putting together again are inverse to each other on them.
-/

namespace Doctest.Text

/-- A line is not empty, and only its last character may be a line feed. -/
def IsLine (line : List Char) : Prop :=
  line ≠ [] ∧ '\n' ∉ line.dropLast

/-- A terminated line ends with a line feed. -/
def IsTerminated (line : List Char) : Prop :=
  line.getLast? = some '\n'

/-- Lines that stand in a text one after the other: only the last may lack its line feed. -/
structure AreLines (ls : List (List Char)) : Prop where
  isLine : ∀ line ∈ ls, IsLine line
  terminated : ∀ line ∈ ls.dropLast, IsTerminated line

/-- A terminated line is a text without line feeds and one after it. -/
theorem isLine_and_isTerminated_iff {line : List Char} :
    IsLine line ∧ IsTerminated line ↔ ∃ s, '\n' ∉ s ∧ line = s ++ ['\n'] := by
  constructor
  · rintro ⟨hline, hend⟩
    exact ⟨line.dropLast, hline.2, (List.dropLast_append_getLast? _ hend).symm⟩
  · rintro ⟨s, hs, rfl⟩
    simp [IsLine, IsTerminated, hs]

/-- A line that is not terminated has no line feed. -/
theorem IsLine.not_mem_of_not_isTerminated {line : List Char} (hline : IsLine line)
    (hend : ¬ IsTerminated line) : '\n' ∉ line := by
  intro hmem
  rw [← List.dropLast_append_getLast hline.1, List.mem_append, List.mem_singleton] at hmem
  rcases hmem with hmem | hmem
  · exact hline.2 hmem
  · exact hend (by rw [IsTerminated, List.getLast?_eq_getLast_of_ne_nil hline.1, ← hmem])

theorem areLines_nil : AreLines [] := by
  constructor <;> simp

/-- Lines with one more before them are lines if that one is terminated. -/
theorem areLines_cons {line : List Char} {ls : List (List Char)} :
    AreLines (line :: ls) ↔ IsLine line ∧ (ls ≠ [] → IsTerminated line) ∧ AreLines ls := by
  cases ls with
  | nil =>
    constructor
    · intro h
      exact ⟨h.isLine line (by simp), by simp, areLines_nil⟩
    · rintro ⟨hline, -⟩
      exact ⟨by simpa using hline, by simp⟩
  | cons second rest =>
    constructor
    · intro h
      refine ⟨h.isLine line (by simp), fun _ => h.terminated line (by simp), ?_⟩
      exact ⟨fun l hl => h.isLine l (by simp [hl]), fun l hl => h.terminated l (by simp [hl])⟩
    · rintro ⟨hline, hend, h⟩
      have hterminated := hend (by simp)
      constructor
      · simpa using ⟨hline, by simpa using h.isLine⟩
      · intro l hl
        rw [List.dropLast_cons_cons, List.mem_cons] at hl
        rcases hl with rfl | hl
        · exact hterminated
        · exact h.terminated l hl

/-- In a longer sequence of lines, all of the front part are terminated. -/
theorem areLines_append {front back : List (List Char)} :
    AreLines (front ++ back) ↔
      AreLines front ∧ (back ≠ [] → ∀ line ∈ front, IsTerminated line) ∧ AreLines back := by
  induction front with
  | nil => simp [areLines_nil]
  | cons line front ih =>
    rw [List.cons_append, areLines_cons, areLines_cons, ih]
    simp only [ne_eq, List.append_eq_nil_iff, not_and, List.mem_cons, forall_eq_or_imp]
    constructor
    · rintro ⟨hline, hend, hfront, hterminated, hback⟩
      refine ⟨⟨hline, fun hne => hend fun h => absurd h hne, hfront⟩, ?_, hback⟩
      exact fun hne => ⟨hend fun _ => hne, hterminated hne⟩
    · rintro ⟨⟨hline, hend, hfront⟩, hterminated, hback⟩
      refine ⟨hline, fun h => ?_, hfront, fun hne => (hterminated hne).2, hback⟩
      by_cases hnil : front = []
      · exact (hterminated (h hnil)).1
      · exact hend hnil

/-- Terminated lines can stand before any others. -/
theorem AreLines.append_left {front back : List (List Char)} (hback : AreLines back)
    (hfront : ∀ line ∈ front, IsLine line ∧ IsTerminated line) : AreLines (front ++ back) := by
  refine areLines_append.mpr
    ⟨⟨fun line hmem => (hfront line hmem).1, fun line hmem => ?_⟩, ?_, hback⟩
  · exact (hfront line (List.dropLast_subset _ hmem)).2
  · exact fun _ line hmem => (hfront line hmem).2

/-- Lines stay lines when some are left out. -/
theorem AreLines.sublist {some all : List (List Char)} (hall : AreLines all)
    (hsub : some.Sublist all) : AreLines some := by
  induction hsub with
  | slnil => exact hall
  | cons line _ ih => exact ih (areLines_cons.mp hall).2.2
  | cons_cons line hsub ih =>
    obtain ⟨hline, hend, hrest⟩ := areLines_cons.mp hall
    refine areLines_cons.mpr ⟨hline, fun hne => hend ?_, ih hrest⟩
    rintro rfl
    exact hne (List.sublist_nil.mp hsub)

/-- The lines of a text put together are the text. -/
@[simp] theorem flatten_lines (s : List Char) : (lines s).flatten = s := by
  induction s with
  | nil => rfl
  | cons c s ih =>
    simp only [lines]
    split
    · simp_all
    · split <;> simp_all

@[simp] theorem lines_eq_nil {s : List Char} : lines s = [] ↔ s = [] := by
  constructor
  · intro h
    rw [← flatten_lines s, h, List.flatten_nil]
  · rintro rfl
    rfl

/-- The lines of a text are lines. -/
theorem areLines_lines (s : List Char) : AreLines (lines s) := by
  induction s with
  | nil => exact areLines_nil
  | cons c s ih =>
    simp only [lines]
    split
    case isTrue hc =>
      exact areLines_cons.mpr ⟨by simp [IsLine], by simp [IsTerminated], ih⟩
    case isFalse hc =>
      split
      case h_1 =>
        exact areLines_cons.mpr ⟨by simp [IsLine], by simp, areLines_nil⟩
      case h_2 line rest hlines =>
        rw [hlines, areLines_cons] at ih
        obtain ⟨⟨hne, hline⟩, hend, hrest⟩ := ih
        refine areLines_cons.mpr ⟨⟨by simp, ?_⟩, fun h => ?_, hrest⟩
        · rw [List.dropLast_cons_of_ne_nil hne, List.mem_cons]
          exact not_or.mpr ⟨Ne.symm hc, hline⟩
        · rw [IsTerminated, List.getLast?_cons_of_ne_nil hne]
          exact hend h

/-- A line feed ends the first line. -/
theorem lines_append_feed {s : List Char} (hs : '\n' ∉ s) (t : List Char) :
    lines (s ++ '\n' :: t) = (s ++ ['\n']) :: lines t := by
  induction s with
  | nil => simp [lines]
  | cons c s ih =>
    rw [List.mem_cons, not_or] at hs
    simp only [List.cons_append, lines, if_neg (Ne.symm hs.1), ih hs.2]

/-- A terminated line in front of a text is its first line. -/
theorem lines_append_of_isTerminated {line : List Char} (hline : IsLine line)
    (hend : IsTerminated line) (t : List Char) : lines (line ++ t) = line :: lines t := by
  obtain ⟨s, hs, rfl⟩ := isLine_and_isTerminated_iff.mp ⟨hline, hend⟩
  rw [List.append_assoc, List.singleton_append, lines_append_feed hs]

/-- A text without line feeds is one line. -/
theorem lines_of_not_mem {s : List Char} (hne : s ≠ []) (hs : '\n' ∉ s) : lines s = [s] := by
  induction s with
  | nil => exact absurd rfl hne
  | cons c s ih =>
    rw [List.mem_cons, not_or] at hs
    cases s with
    | nil => simp [lines, Ne.symm hs.1]
    | cons d s => rw [lines, if_neg (Ne.symm hs.1), ih (by simp) hs.2]

/-- A line by itself is one line. -/
theorem lines_of_isLine {line : List Char} (hline : IsLine line) : lines line = [line] := by
  by_cases hend : IsTerminated line
  · have h := lines_append_of_isTerminated hline hend []
    rwa [List.append_nil] at h
  · exact lines_of_not_mem hline.1 (hline.not_mem_of_not_isTerminated hend)

/-- Lines put together are cut apart again. -/
theorem lines_flatten {ls : List (List Char)} (h : AreLines ls) : lines ls.flatten = ls := by
  induction ls with
  | nil => rfl
  | cons line ls ih =>
    obtain ⟨hline, hend, hrest⟩ := areLines_cons.mp h
    by_cases hne : ls = []
    · subst hne
      simpa using lines_of_isLine hline
    · rw [List.flatten_cons, lines_append_of_isTerminated hline (hend hne), ih hrest]

/-- Terminated lines in front of a text are its first lines. -/
theorem lines_flatten_append {ls : List (List Char)} (hline : ∀ line ∈ ls, IsLine line)
    (hend : ∀ line ∈ ls, IsTerminated line) (t : List Char) :
    lines (ls.flatten ++ t) = ls ++ lines t := by
  induction ls with
  | nil => rfl
  | cons line ls ih =>
    rw [List.forall_mem_cons] at hline hend
    rw [List.flatten_cons, List.append_assoc, lines_append_of_isTerminated hline.1 hend.1,
      ih hline.2 hend.2, List.cons_append]

/-- In a text that is empty or terminated, every line is terminated. -/
theorem isTerminated_of_mem_lines {s line : List Char} (hs : s = [] ∨ IsTerminated s)
    (hmem : line ∈ lines s) : IsTerminated line := by
  have hlines := areLines_lines s
  rcases List.eq_nil_or_concat (lines s) with hnil | ⟨front, last, hlast⟩
  · simp [hnil] at hmem
  · rw [List.concat_eq_append] at hlast
    rw [hlast, List.mem_append, List.mem_singleton] at hmem
    rcases hmem with hmem | rfl
    · exact hlines.terminated line (by rwa [hlast, List.dropLast_concat])
    · have hline := (hlines.isLine line (by simp [hlast])).1
      rcases hs with rfl | hs
      · cases front <;> cases hlast
      · rwa [← flatten_lines s, hlast, List.flatten_append, List.flatten_singleton, IsTerminated,
          List.getLast?_append_of_ne_nil _ hline] at hs

/-- Two lines that stand one after the other are two lines. -/
theorem AreLines.lines_append {first second : List Char} {rest : List (List Char)}
    (h : AreLines (first :: second :: rest)) : lines (first ++ second) = [first, second] := by
  obtain ⟨hfirst, hend, htail⟩ := areLines_cons.mp h
  rw [lines_append_of_isTerminated hfirst (hend (by simp)),
    lines_of_isLine (htail.isLine second (by simp))]

theorem splitLines_ne_nil (s : List Char) : splitLines s ≠ [] := by
  fun_cases splitLines s <;> simp

/-- A line feed ends the pieces of the text before it. -/
theorem splitLines_append_feed (s t : List Char) :
    splitLines (s ++ '\n' :: t) = splitLines s ++ splitLines t := by
  induction s with
  | nil => simp [splitLines]
  | cons c s ih =>
    have hne := splitLines_ne_nil s
    simp only [List.cons_append, splitLines, ih]
    split
    case isTrue => rfl
    case isFalse =>
      cases hpieces : splitLines s with
      | nil => exact absurd hpieces hne
      | cons piece rest => rfl

/-- A text without line feeds is one piece. -/
theorem splitLines_of_not_mem {s : List Char} (hs : '\n' ∉ s) : splitLines s = [s] := by
  induction s with
  | nil => rfl
  | cons c s ih =>
    rw [List.mem_cons, not_or] at hs
    rw [splitLines, if_neg (Ne.symm hs.1), ih hs.2]

/-- The pieces put together with line feeds are the text. -/
theorem intercalate_splitLines (s : List Char) : ['\n'].intercalate (splitLines s) = s := by
  induction s with
  | nil => rfl
  | cons c s ih =>
    rw [splitLines]
    cases hpieces : splitLines s with
    | nil => exact absurd hpieces (splitLines_ne_nil s)
    | cons piece rest =>
      rw [hpieces] at ih
      split
      case isTrue hc =>
        rw [List.intercalate_cons_cons, ih, hc, List.nil_append, List.singleton_append]
      case isFalse =>
        conv_rhs => rw [← ih]
        cases rest with
        | nil => simp
        | cons second rest => simp [List.intercalate_cons_cons]

/-- No piece has a line feed. -/
theorem not_mem_of_mem_splitLines {s piece : List Char} (hmem : piece ∈ splitLines s) :
    '\n' ∉ piece := by
  induction s generalizing piece with
  | nil =>
    obtain rfl : piece = [] := by simpa [splitLines] using hmem
    exact List.not_mem_nil
  | cons c s ih =>
    rw [splitLines] at hmem
    cases hpieces : splitLines s with
    | nil => exact absurd hpieces (splitLines_ne_nil s)
    | cons first rest =>
      rw [hpieces] at hmem ih
      split at hmem
      case isTrue =>
        rcases List.mem_cons.mp hmem with rfl | hmem
        · exact List.not_mem_nil
        · exact ih hmem
      case isFalse hc =>
        rcases List.mem_cons.mp hmem with rfl | hmem
        · rw [List.mem_cons, not_or]
          exact ⟨Ne.symm hc, ih List.mem_cons_self⟩
        · exact ih (List.mem_cons_of_mem _ hmem)

/-- What is left of a terminated line without its terminator, if that is a line feed alone. -/
theorem dropLineEnd_append_feed (s : List Char) : dropLineEnd (s ++ ['\n']) = dropReturn s := by
  simp [dropLineEnd]

/-- What is left of a terminated line without its terminator, if it has a carriage return. -/
theorem dropLineEnd_append_return_feed (s : List Char) : dropLineEnd (s ++ ['\r', '\n']) = s := by
  have hsplit : s ++ ['\r', '\n'] = (s ++ ['\r']) ++ ['\n'] := by simp
  rw [hsplit, dropLineEnd_append_feed]
  simp [dropReturn]

/-- A text that does not end with a carriage return is left alone. -/
theorem dropReturn_of_getLast? {s : List Char} (hs : s.getLast? ≠ some '\r') :
    dropReturn s = s := by
  unfold dropReturn
  split <;> simp_all

/-- A text that is not terminated has at most a carriage return to lose. -/
theorem dropLineEnd_of_not_isTerminated {line : List Char} (hend : ¬ IsTerminated line) :
    dropLineEnd line = dropReturn line := by
  unfold dropLineEnd
  split <;> simp_all [IsTerminated]

/-- A text is itself without a carriage return, or that and a carriage return. -/
theorem dropReturn_eq_or (s : List Char) : s = dropReturn s ∨ s = dropReturn s ++ ['\r'] := by
  unfold dropReturn
  split
  case h_1 h => exact .inr (List.dropLast_append_getLast? _ h).symm
  case h_2 => exact .inl rfl

/-- A line is what is left of it without its terminator, and line breaks after that; there are
some if it is terminated. -/
theorem exists_dropLineEnd_append (line : List Char) :
    ∃ ending, line = dropLineEnd line ++ ending ∧ (∀ c ∈ ending, c = '\n' ∨ c = '\r') ∧
      (IsTerminated line → ending ≠ []) := by
  by_cases hend : IsTerminated line
  · have hsplit : line = line.dropLast ++ ['\n'] := (List.dropLast_append_getLast? _ hend).symm
    have hdrop : dropLineEnd line = dropReturn line.dropLast := by
      conv_lhs => rw [hsplit]
      exact dropLineEnd_append_feed _
    rw [hdrop]
    rcases dropReturn_eq_or line.dropLast with hline | hline
    · refine ⟨['\n'], ?_, by simp, by simp⟩
      rw [← hline]
      exact hsplit
    · refine ⟨['\r', '\n'], ?_, by simp, by simp⟩
      conv_lhs => rw [hsplit, hline]
      simp
  · rw [dropLineEnd_of_not_isTerminated hend]
    rcases dropReturn_eq_or line with hline | hline
    · exact ⟨[], by simpa using hline, by simp, fun h => absurd h hend⟩
    · exact ⟨['\r'], hline, by simp, by simp⟩

/-- What begins two texts put together begins the first, if the second does not go on with it. -/
theorem prefix_of_prefix_append {p s t : List Char} (h : p <+: s ++ t)
    (ht : ∀ c ∈ t.head?, c ∉ p) : p <+: s := by
  rcases List.prefix_or_prefix_of_prefix h (List.prefix_append s t) with hshort | ⟨q, rfl⟩
  · exact hshort
  · cases q with
    | nil => simp
    | cons c q =>
      obtain ⟨rest, hrest⟩ := (List.prefix_append_right_inj s).mp h
      exact absurd (by simp) (ht c (by simp [← hrest]))

/-- What has no line breaks begins the first line of a text if it begins the text. -/
theorem prefix_dropLineEnd_iff {p s line : List Char} {rest : List (List Char)}
    (hp : ∀ c ∈ p, c ≠ '\n' ∧ c ≠ '\r') (hlines : lines s = line :: rest) :
    p <+: dropLineEnd line ↔ p <+: s := by
  obtain ⟨ending, hsplit, hbreaks, hterminated⟩ := exists_dropLineEnd_append line
  have hs : s = dropLineEnd line ++ (ending ++ rest.flatten) := by
    rw [← List.append_assoc, ← hsplit, ← List.flatten_cons, ← hlines, flatten_lines]
  constructor
  · intro h
    rw [hs]
    exact h.trans (List.prefix_append _ _)
  · intro h
    rw [hs] at h
    refine prefix_of_prefix_append h fun c hc hmem => ?_
    cases ending with
    | cons d ending =>
      obtain rfl : d = c := by simpa using hc
      rcases hbreaks d (by simp) with hd | hd
      · exact (hp d hmem).1 hd
      · exact (hp d hmem).2 hd
    | nil =>
      have hlast := areLines_lines s
      rw [hlines, areLines_cons] at hlast
      by_cases hrest : rest = []
      · simp [hrest] at hc
      · exact hterminated (hlast.2.1 hrest) rfl

end Doctest.Text
