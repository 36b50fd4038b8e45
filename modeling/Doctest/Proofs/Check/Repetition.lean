import Doctest.Proofs.Check.Annotation

/-!
# Annotating a document again

A document that was annotated and read again has other nodes than before: blank lines that were part
of a marker belong to text. Once its markers are stripped it is annotated to the same characters,
if no text directly after a checked block begins as a marker does. That condition stays true, and
the checked blocks keep their values.
-/

namespace Doctest

namespace Document

/-- The markers directly after each checked block. -/
def markersAfter (settings : Settings) : List Node → List (List Marker)
  | [] => []
  | .text _ :: rest => markersAfter settings rest
  | .marker .. :: rest => markersAfter settings rest
  | .code block :: rest =>
    if settings.checks block then
      (rest.takeWhile Node.isMarker).filterMap Node.marker? :: markersAfter settings rest
    else markersAfter settings rest

variable {settings : Settings} {number : Nat} {markers : List Marker} {nodes : List Node}

/-- The text at the front of the unmarked nodes is the same when they are read again. -/
theorem head?_unmarked_reread_text {raw : List Char} :
    (unmarked (reread settings number markers nodes)).head? = some (.text raw) ↔
      (unmarked nodes).head? = some (.text raw) := by
  fun_induction reread settings number markers nodes with
  | case1 => rfl
  | case2 number markers text rest ih => simp
  | case3 number markers marker text rest ih => exact ih
  | case4 number block rest marker markers hchecks ih => simp
  | case5 number block rest markers h ih => simp

theorem gap_head?_unmarked_reread (newline : List Char) :
    gap newline (unmarked (reread settings number markers nodes)).head? =
      gap newline (unmarked nodes).head? := by
  fun_induction reread settings number markers nodes with
  | case1 => rfl
  | case2 number markers text rest ih => simp
  | case3 number markers marker text rest ih => exact ih
  | case4 number block rest marker markers hchecks ih => simp [gap, needsGap]
  | case5 number block rest markers h ih => simp [gap, needsGap]

/-- The markers at the front are the same when the nodes are read again. -/
theorem takeWhile_isMarker_reread (settings : Settings) (number : Nat) (markers : List Marker)
    (nodes : List Node) :
    (reread settings number markers nodes).takeWhile Node.isMarker =
      nodes.takeWhile Node.isMarker := by
  fun_induction reread settings number markers nodes with
  | case1 => rfl
  | case2 number markers text rest ih => rfl
  | case3 number markers marker text rest ih => simp [List.takeWhile_cons, ih]
  | case4 number block rest marker markers hchecks ih => rfl
  | case5 number block rest markers h ih => rfl

section Spaced

variable {newline : List Char} (hnewline : Text.IsLineEnd newline)
include hnewline

/-- A text begins with a blank line once it has got one if it needed it. -/
theorem startsBlank_gap_append (raw : List Char) :
    startsBlank ((gap newline (some (.text raw))).flatten ++ raw) = true := by
  by_cases hblank : startsBlank raw = true
  · simp [gap, needsGap, hblank]
  · have hlines : Text.lines (newline ++ raw) = newline :: Text.lines raw :=
      Text.lines_append_of_isTerminated hnewline.isLine hnewline.isTerminated raw
    have hgap : gap newline (some (.text raw)) = [newline] := by
      simp [gap, needsGap, hblank]
    rw [hgap, List.flatten_singleton, startsBlank, hlines]
    exact hnewline.allBlank_dropLineEnd

theorem startsBlank_newline : startsBlank newline = true := by
  rw [startsBlank, Text.lines_of_isLine hnewline.isLine]
  exact hnewline.allBlank_dropLineEnd

variable {nodes : List Node}
  (hnext : ∀ raw, (unmarked nodes).head? = some (.text raw) → ¬ Marker.Opens raw)
include hnext

/-- After the blank line, no text comes next that begins as a marker does. -/
theorem not_opens_unmarked_spaced :
    ∀ raw, (unmarked (spaced newline nodes)).head? = some (.text raw) → ¬ Marker.Opens raw := by
  match nodes with
  | [] => exact hnext
  | .marker marker raw :: rest => exact hnext
  | .code block :: rest =>
    intro raw hraw
    obtain rfl : newline = raw := by simpa [spaced] using hraw
    exact not_opens_of_startsBlank (startsBlank_newline hnewline)
  | .text text :: rest =>
    intro raw hraw
    rw [spaced_text hnewline rest (hnext text rfl)] at hraw
    obtain rfl : _ = raw := by simpa using hraw
    exact not_opens_of_startsBlank (startsBlank_gap_append hnewline text)

/-- The blank line is put once. -/
theorem raw_annotate_unmarked_spaced (markers : List Marker) :
    (gap newline (unmarked (spaced newline nodes)).head?).flatten ++
        (annotateNodes settings.checks markers
          (unmarked (spaced newline nodes))).flatMap Node.raw =
      (gap newline (unmarked nodes).head?).flatten ++
        (annotateNodes settings.checks markers (unmarked nodes)).flatMap Node.raw := by
  match nodes with
  | [] => rfl
  | .marker marker raw :: rest => rfl
  | .code block :: rest =>
    have hblank := startsBlank_newline hnewline
    simp [spaced, gap, needsGap, hblank, annotateNodes_text]
  | .text raw :: rest =>
    have hblank := startsBlank_gap_append hnewline raw
    rw [spaced_text hnewline rest (hnext raw rfl), unmarked_text, annotateNodes_text,
      unmarked_text, annotateNodes_text]
    have hnone : gap newline (some (.text ((gap newline (some (.text raw))).flatten ++ raw))) =
        [] := by
      rw [gap, needsGap, hblank]
      rfl
    simp [hnone]

/-- The same of nodes that are read again. -/
theorem raw_annotate_unmarked_spaced_reread (others : List Marker) :
    (gap newline (unmarked (spaced newline
          (reread settings number markers nodes))).head?).flatten ++
        (annotateNodes settings.checks others (unmarked (spaced newline
          (reread settings number markers nodes)))).flatMap Node.raw =
      (gap newline (unmarked nodes).head?).flatten ++
        (annotateNodes settings.checks others
          (unmarked (reread settings number markers nodes))).flatMap Node.raw := by
  rw [raw_annotate_unmarked_spaced hnewline fun raw hraw =>
    hnext raw (head?_unmarked_reread_text.mp hraw), gap_head?_unmarked_reread]

end Spaced

theorem checked_spaced (newline : List Char) (nodes : List Node) :
    checked settings (spaced newline nodes) = checked settings nodes :=
  spaced_of_skips (fun _ _ => rfl) (fun _ _ _ => rfl) newline nodes

/-- What does not depend on the number of a block or on the end of its closing line is the same of
the checked blocks when they are read again. -/
theorem map_checked_reread {α : Type} (f : CodeBlock → α)
    (hline : ∀ block number, f (CodeBlock.onLine block number) = f block)
    (hended : ∀ block, f (CodeBlock.ended block) = f block) :
    (checked settings (reread settings number markers nodes)).map f =
      (checked settings nodes).map f := by
  fun_induction reread settings number markers nodes with
  | case1 => rfl
  | case2 number markers text rest ih => exact ih
  | case3 number markers marker text rest ih => exact ih
  | case4 number block rest marker markers hchecks ih =>
    simp [hchecks, checked_spaced, hline, hended, ih]
  | case5 number block rest markers h ih =>
    by_cases hchecks : settings.checks block = true
    · simp [hchecks, hline, ih]
    · simp [hchecks, ih]

/-- The checked blocks are closed when they are read again. -/
theorem isClosed_of_mem_checked_reread
    (hclosed : ∀ block ∈ checked settings nodes, block.isClosed = true) :
    ∀ block ∈ checked settings (reread settings number markers nodes),
      block.isClosed = true := by
  intro block hmem
  have hmap := List.mem_map_of_mem (f := CodeBlock.isClosed) hmem
  rw [map_checked_reread CodeBlock.isClosed CodeBlock.isClosed_onLine
    CodeBlock.isClosed_ended] at hmap
  obtain ⟨other, hother, hsame⟩ := List.mem_map.mp hmap
  rw [← hsame]
  exact hclosed other hother

theorem keepsApart_unmarked_spaced (newline : List Char) (nodes : List Node) :
    KeepsApart settings (unmarked (spaced newline nodes)) = KeepsApart settings (unmarked nodes) :=
  spaced_of_skips (f := fun nodes => KeepsApart settings (unmarked nodes)) (fun _ _ => rfl)
    (fun _ _ _ => rfl) newline nodes

/-- Texts stay apart from checked blocks when they are read again. -/
theorem keepsApart_unmarked_reread (hapart : KeepsApart settings (unmarked nodes)) :
    KeepsApart settings (unmarked (reread settings number markers nodes)) := by
  fun_induction reread settings number markers nodes with
  | case1 => trivial
  | case2 number markers text rest ih => exact ih hapart
  | case3 number markers marker text rest ih => exact ih hapart
  | case4 number block rest marker markers hchecks ih =>
    rw [unmarked_code] at hapart
    obtain ⟨hnext, hrest⟩ := hapart
    rw [unmarked_code, unmarked_marker]
    refine ⟨fun _ => not_opens_unmarked_spaced block.isLineEnd_newline fun raw hraw => ?_, ?_⟩
    · exact hnext hchecks raw (head?_unmarked_reread_text.mp hraw)
    · rw [keepsApart_unmarked_spaced]
      exact ih hrest
  | case5 number block rest markers h ih =>
    rw [unmarked_code] at hapart
    obtain ⟨hnext, hrest⟩ := hapart
    rw [unmarked_code]
    exact ⟨fun hchecks raw hraw => hnext hchecks raw (head?_unmarked_reread_text.mp hraw),
      ih hrest⟩

/-- Texts that are kept apart without the markers are so with them. -/
theorem keepsApart_of_unmarked (hapart : KeepsApart settings (unmarked nodes)) :
    KeepsApart settings nodes := by
  fun_induction KeepsApart settings nodes with
  | case1 => trivial
  | case2 raw rest ih => exact ih hapart
  | case3 marker raw rest ih => exact ih hapart
  | case4 block rest ih =>
    rw [unmarked_code] at hapart
    refine ⟨fun hchecks raw hraw => ?_, ih hapart.2⟩
    obtain ⟨more, rfl⟩ := List.head?_eq_some_iff.mp hraw
    exact hapart.1 hchecks raw rfl

/-- **Repetition.** Once its markers are stripped, what is read again is annotated to the same
characters as the nodes without their markers. -/
theorem raw_annotate_unmarked_reread {others : List Marker}
    (hclosed : ∀ block ∈ checked settings nodes, block.isClosed = true)
    (hapart : KeepsApart settings (unmarked nodes))
    (hlength : others.length = (checked settings nodes).length) :
    (annotateNodes settings.checks others
        (unmarked (reread settings number markers nodes))).flatMap Node.raw =
      (annotateNodes settings.checks others (unmarked nodes)).flatMap Node.raw := by
  fun_induction reread settings number markers nodes generalizing others with
  | case1 => rfl
  | case2 number markers text rest ih =>
    rw [unmarked_text, unmarked_text, annotateNodes_text, annotateNodes_text, List.flatMap_cons,
      List.flatMap_cons, ih hclosed hapart hlength]
  | case3 number markers marker text rest ih => exact ih hclosed hapart hlength
  | case4 number block rest marker markers hchecks ih =>
    simp only [checked_code, hchecks, if_true, List.forall_mem_cons] at hclosed hlength
    obtain ⟨other, others, rfl⟩ := List.exists_cons_of_length_eq_add_one hlength
    rw [unmarked_code] at hapart
    obtain ⟨hnext, hrest⟩ := hapart
    rw [unmarked_code, unmarked_marker, unmarked_code,
      raw_annotateNodes_checked (by simpa using hchecks) (by simp [hclosed.1]),
      raw_annotateNodes_checked hchecks hclosed.1]
    -- The block is ended already, and the blank line after its marker is now part of the text.
    simp only [CodeBlock.ended_onLine, CodeBlock.raw_onLine, CodeBlock.newline_onLine,
      CodeBlock.newline_ended, CodeBlock.raw_ended_ended hclosed.1]
    rw [raw_annotate_unmarked_spaced_reread block.isLineEnd_newline (hnext hchecks),
      ih hclosed.2 hrest (Nat.add_right_cancel hlength)]
  | case5 number block rest markers h ih =>
    have hrest : KeepsApart settings (unmarked rest) := by
      rw [unmarked_code] at hapart
      exact hapart.2
    -- The block may be checked all the same, when there was no marker left for it.
    have hmore (block : CodeBlock) (hmem : block ∈ checked settings rest) :
        block.isClosed = true := hclosed block (mem_checked_cons hmem)
    rw [unmarked_code, unmarked_code]
    by_cases hchecks : settings.checks block = true
    · simp only [checked_code, hchecks, if_true, List.forall_mem_cons] at hclosed hlength
      obtain ⟨other, others, rfl⟩ := List.exists_cons_of_length_eq_add_one hlength
      rw [raw_annotateNodes_checked (by simpa using hchecks) (by simp [hclosed.1]),
        raw_annotateNodes_checked hchecks hclosed.1]
      simp [gap_head?_unmarked_reread, ih hmore hrest (Nat.add_right_cancel hlength)]
    · simp only [checked_code, hchecks] at hlength
      rw [annotateNodes_code fun _ _ _ h => hchecks (by simpa using h),
        annotateNodes_code fun _ _ _ => hchecks]
      simp [ih hmore hrest hlength]

theorem markersAfter_spaced (newline : List Char) (nodes : List Node) :
    markersAfter settings (spaced newline nodes) = markersAfter settings nodes :=
  spaced_of_skips (fun _ _ => rfl) (fun _ _ _ => rfl) newline nodes

/-- After the new marker stand the markers that were there, and no further ones. -/
theorem takeWhile_isMarker_spaced_reread {newline : List Char}
    (hnewline : Text.IsLineEnd newline)
    (hnext : ∀ raw, nodes.head? = some (.text raw) → ¬ Marker.Opens raw) :
    (spaced newline (reread settings number markers nodes)).takeWhile Node.isMarker =
      nodes.takeWhile Node.isMarker := by
  rw [← takeWhile_isMarker_reread settings number markers nodes]
  cases hagain : reread settings number markers nodes with
  | nil => rfl
  | cons node rest =>
    cases node with
    | marker marker raw => rfl
    | code block => rfl
    | text raw =>
      have hraw : nodes.head? = some (.text raw) := by
        rw [← head?_reread_text, hagain, List.head?_cons]
      rw [spaced_text hnewline rest (hnext raw hraw)]
      rfl

/-- Each checked block has the new marker before those that were after it. -/
theorem markersAfter_reread (hlength : markers.length = (checked settings nodes).length)
    (hapart : KeepsApart settings nodes) :
    markersAfter settings (reread settings number markers nodes) =
      List.zipWith List.cons markers (markersAfter settings nodes) := by
  fun_induction reread settings number markers nodes with
  | case1 => simp [markersAfter]
  | case2 number markers text rest ih => exact ih hlength hapart
  | case3 number markers marker text rest ih => exact ih hlength hapart
  | case4 number block rest marker markers hchecks ih =>
    simp only [checked_code, hchecks, if_true, List.length_cons,
      Nat.add_right_cancel_iff] at hlength
    obtain ⟨hnext, hrest⟩ := hapart
    simp [markersAfter, hchecks, List.takeWhile_cons, Node.isMarker, markersAfter_spaced,
      takeWhile_isMarker_spaced_reread block.isLineEnd_newline (hnext hchecks), ih hlength hrest]
  | case5 number block rest markers h ih =>
    have hchecks := checks_eq_false h hlength
    simp only [checked_code, hchecks, Bool.false_eq_true, if_false] at hlength
    simp [markersAfter, hchecks, ih hlength hapart.2]

end Document

end Doctest
