import Doctest.Document.Edit
import Doctest.Proofs.Document.MarkerLine
import Doctest.Proofs.Document.RoundTrip

/-!
# What is read after a new marker

A marker is put before the nodes that follow with a blank line between, unless one is there. That
line is read as part of the text after it, or as a text of its own before a block. If the text
begins as a marker does, the blank line makes a marker of it.
-/

namespace Doctest.Document

/-- A text whose first line is blank does not begin as a marker does. -/
theorem not_opens_of_startsBlank {raw : List Char} (h : startsBlank raw = true) :
    ¬ Marker.Opens raw := by
  unfold startsBlank at h
  split at h
  case h_1 hlines =>
    obtain rfl := Text.lines_eq_nil.mp hlines
    decide
  case h_2 hlines =>
    rw [← Marker.opens_dropLineEnd_iff hlines]
    exact Marker.not_opens_of_allBlank h

/-- Behind a blank line, the text of a marker is ahead exactly if the text begins so. -/
theorem markerAhead?_cons_lines_eq_none_iff {newline raw : List Char}
    (hnewline : Text.IsLineEnd newline) :
    markerAhead? (newline :: Text.lines raw) = none ↔ ¬ Marker.Opens raw := by
  cases hlines : Text.lines raw with
  | nil =>
    obtain rfl := Text.lines_eq_nil.mp hlines
    simp only [markerAhead?_singleton, true_iff]
    decide
  | cons line rest =>
    rw [markerAhead?, if_pos hnewline.allBlank_dropLineEnd, Marker.ofLine?_eq_none_iff,
      Marker.opens_dropLineEnd_iff hlines]

/-- The blank line that is put before the node that follows a marker, if one is needed. -/
def gap (newline : List Char) (next : Option Node) : List (List Char) :=
  if needsGap next then [newline] else []

theorem flatten_gap (newline : List Char) (next : Option Node) :
    (gap newline next).flatten = if needsGap next then newline else [] := by
  unfold gap
  split <;> simp

/-- The characters of a closed block and of the marker after it. -/
theorem raw_append_markerAfter {block : CodeBlock} (hclosed : block.isClosed = true)
    (marker : Marker) (next : Option Node) :
    block.raw ++ (markerAfter block marker next).raw =
      block.ended.raw ++ (block.newline ++ (marker.text ++ block.newline ++
        (gap block.newline next).flatten)) := by
  rw [CodeBlock.raw_ended hclosed, markerAfter, Node.raw, flatten_gap]
  simp only [List.append_assoc]

/-- What lines that open no fence are read to after a marker, and the nodes after them. -/
def afterMarker (rest : List Node) : List (List Char) → List Node
  | [] => rest
  | [line] => .text line :: rest
  | blank :: line :: more =>
    match markerAhead? [blank, line] with
    | some marker => .marker marker (blank ++ line) :: afterMarker rest more
    | none => .text (blank :: line :: more).flatten :: rest

/-- The nodes that follow a marker as they are read with the blank line before them. -/
def spaced (newline : List Char) : List Node → List Node
  | .text raw :: rest =>
    if startsBlank raw then .text raw :: rest else afterMarker rest (newline :: Text.lines raw)
  | .code block :: rest => .text newline :: .code block :: rest
  | nodes => nodes

/-- The lines after a marker are kept as they are read. -/
theorem lines_afterMarker {ls : List (List Char)} (rest : List Node) (hlines : Text.AreLines ls) :
    (afterMarker rest ls).flatMap Node.lines = ls ++ rest.flatMap Node.lines := by
  fun_induction afterMarker rest ls with
  | case1 => rfl
  | case2 line => simp [Text.lines_of_isLine (hlines.isLine line (by simp))]
  | case3 blank line more marker hmarker ih =>
    obtain ⟨-, -, htail⟩ := Text.areLines_cons.mp hlines
    obtain ⟨-, -, hmore⟩ := Text.areLines_cons.mp htail
    simp [hlines.lines_append, ih hmore]
  | case4 blank line more hmarker =>
    rw [List.flatMap_cons, Node.lines_text, Text.lines_flatten hlines]

/-- The lines after a marker are read as a marker allows. -/
theorem arranged_afterMarker {ls : List (List Char)} {rest : List Node}
    (hlines : Text.AreLines ls)
    (hopen : ∀ line ∈ ls, Fence.open? (Text.dropLineEnd line) = none)
    (hnext : ∀ next, rest.head? ≠ some (.text next)) (hrest : Arranged false rest) :
    Arranged true (afterMarker rest ls) := by
  fun_induction afterMarker rest ls with
  | case1 =>
    cases rest with
    | nil => trivial
    | cons node rest =>
      cases node with
      | text raw => exact absurd rfl (hnext raw)
      | code block => exact hrest
      | marker marker raw => simp [Arranged] at hrest
  | case2 line =>
    have hline := hlines.isLine line (by simp)
    rw [Arranged, Text.lines_of_isLine hline]
    exact ⟨hline.1, hopen, fun _ => rfl, hnext, hrest⟩
  | case3 blank line more marker hmarker ih =>
    obtain ⟨-, -, htail⟩ := Text.areLines_cons.mp hlines
    obtain ⟨-, -, hmore⟩ := Text.areLines_cons.mp htail
    rw [Arranged, hlines.lines_append]
    exact ⟨rfl, rfl, hmarker, ih hmore fun l hl => hopen l (by simp [hl])⟩
  | case4 blank line more hmarker =>
    have hblank := (hlines.isLine blank (by simp)).1
    rw [Arranged, Text.lines_flatten hlines]
    exact ⟨by simp [hblank], hopen, fun _ => hmarker, hnext, hrest⟩

/-- What the lines after a marker are read to has no blocks. -/
theorem numbered_afterMarker {number : Nat} {ls : List (List Char)} {rest : List Node}
    (hlines : Text.AreLines ls) (hrest : Numbered (number + ls.length) rest) :
    Numbered number (afterMarker rest ls) := by
  fun_induction afterMarker rest ls generalizing number with
  | case1 => exact hrest
  | case2 line =>
    refine ⟨by simp [Node.code?], ?_⟩
    rwa [Node.lines_text, Text.lines_of_isLine (hlines.isLine line (by simp))]
  | case3 blank line more marker hmarker ih =>
    obtain ⟨-, -, htail⟩ := Text.areLines_cons.mp hlines
    obtain ⟨-, -, hmore⟩ := Text.areLines_cons.mp htail
    refine ⟨by simp [Node.code?], ?_⟩
    rw [Node.lines_marker, hlines.lines_append]
    refine ih hmore ?_
    have hnumber : number + [blank, line].length + more.length =
        number + (blank :: line :: more).length := by
      simp only [List.length_cons, List.length_nil]
      omega
    rwa [hnumber]
  | case4 blank line more hmarker =>
    refine ⟨by simp [Node.code?], ?_⟩
    rwa [Node.lines_text, Text.lines_flatten hlines]

section Skips

variable {α : Type} {f : List Node → α} (htext : ∀ raw rest, f (.text raw :: rest) = f rest)
  (hmarker : ∀ marker raw rest, f (.marker marker raw :: rest) = f rest)
include htext hmarker

/-- What skips texts and markers skips the lines after a marker. -/
theorem afterMarker_of_skips (rest : List Node) (ls : List (List Char)) :
    f (afterMarker rest ls) = f rest := by
  fun_induction afterMarker rest ls with
  | case1 => rfl
  | case2 line => rw [htext]
  | case3 blank line more marker hahead ih => rw [hmarker, ih]
  | case4 blank line more hahead => rw [htext]

/-- What skips texts and markers does not see the blank line. -/
theorem spaced_of_skips (newline : List Char) (nodes : List Node) :
    f (spaced newline nodes) = f nodes := by
  match nodes with
  | [] => rfl
  | .marker marker raw :: rest => rfl
  | .code block :: rest => rw [spaced, htext]
  | .text raw :: rest =>
    rw [spaced]
    split
    · rfl
    · rw [afterMarker_of_skips htext hmarker, htext]

end Skips

section Spaced

variable {newline : List Char} (hnewline : Text.IsLineEnd newline)
include hnewline

/-- A blank line before the lines of a text. -/
theorem areLines_cons_lines (raw : List Char) : Text.AreLines (newline :: Text.lines raw) :=
  Text.areLines_cons.mpr ⟨hnewline.isLine, fun _ => hnewline.isTerminated, Text.areLines_lines raw⟩

/-- The blank line is all that is put before the nodes. -/
theorem lines_spaced (nodes : List Node) :
    (spaced newline nodes).flatMap Node.lines =
      gap newline nodes.head? ++ nodes.flatMap Node.lines := by
  match nodes with
  | [] => rfl
  | .marker marker raw :: rest => rfl
  | .code block :: rest =>
    simp [spaced, gap, needsGap, Text.lines_of_isLine hnewline.isLine]
  | .text raw :: rest =>
    by_cases hblank : startsBlank raw = true
    · simp [spaced, gap, needsGap, hblank]
    · rw [spaced, if_neg hblank, lines_afterMarker rest (areLines_cons_lines hnewline raw)]
      simp [gap, needsGap, hblank]

/-- The nodes stand with the blank line as they are read after a marker. -/
theorem arranged_spaced {nodes : List Node} (harranged : Arranged true nodes) :
    Arranged true (spaced newline nodes) := by
  have hopen : Fence.open? (Text.dropLineEnd newline) = none := by
    rw [hnewline.dropLineEnd_eq]
    rfl
  match nodes with
  | [] => trivial
  | .marker marker raw :: rest => exact harranged
  | .code block :: rest =>
    rw [spaced, Arranged, Text.lines_of_isLine hnewline.isLine]
    exact ⟨hnewline.isLine.1, by simpa using hopen, fun _ => rfl, by simp, harranged⟩
  | .text raw :: rest =>
    by_cases hblank : startsBlank raw = true
    · rwa [spaced, if_pos hblank]
    · obtain ⟨-, hopens, -, hnext, hrest⟩ := harranged
      rw [spaced, if_neg hblank]
      exact arranged_afterMarker (areLines_cons_lines hnewline raw)
        (List.forall_mem_cons.mpr ⟨hopen, hopens⟩) hnext hrest

/-- The blocks have the numbers that the blank line gives them. -/
theorem numbered_spaced {number : Nat} {nodes : List Node}
    (hnumbered : Numbered (number + (gap newline nodes.head?).length) nodes) :
    Numbered number (spaced newline nodes) := by
  match nodes with
  | [] => trivial
  | .marker marker raw :: rest => exact hnumbered
  | .code block :: rest =>
    refine ⟨by simp [Node.code?], ?_⟩
    rwa [Node.lines_text, Text.lines_of_isLine hnewline.isLine]
  | .text raw :: rest =>
    by_cases hblank : startsBlank raw = true
    · simpa [spaced, gap, needsGap, hblank] using hnumbered
    · have hrest := hnumbered.2
      rw [spaced, if_neg hblank]
      refine numbered_afterMarker (areLines_cons_lines hnewline raw) ?_
      simpa [gap, needsGap, hblank, Nat.add_assoc, Nat.add_comm 1] using hrest

/-- A text that does not begin as a marker does is kept behind the blank line. -/
theorem spaced_text {raw : List Char} (rest : List Node) (hopens : ¬ Marker.Opens raw) :
    spaced newline (.text raw :: rest) =
      .text ((gap newline (some (.text raw))).flatten ++ raw) :: rest := by
  by_cases hblank : startsBlank raw = true
  · simp [spaced, gap, needsGap, hblank]
  · have hnone := (markerAhead?_cons_lines_eq_none_iff hnewline).mpr hopens
    rw [spaced, if_neg hblank]
    cases hlines : Text.lines raw with
    | nil =>
      obtain rfl := Text.lines_eq_nil.mp hlines
      cases hblank rfl
    | cons line more =>
      rw [hlines] at hnone
      have hsame : markerAhead? [newline, line] = none := hnone
      rw [afterMarker, hsame, ← hlines]
      simp [gap, needsGap, hblank]

end Spaced

end Doctest.Document
