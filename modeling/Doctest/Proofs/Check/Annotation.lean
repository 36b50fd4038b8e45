import Doctest.Proofs.Check.Rereading
import Doctest.Proofs.Document.Stripping

/-!
# What annotation keeps

The blocks and the lines of text that an author wrote are the same when an annotated document is
read again, up to lines that begin as a marker does and stand directly after a checked block. These
are counted: each is one marker too many and one line of text lost.
-/

namespace Doctest

/-- What an author wrote: a block with its info string and value, or a line of text. -/
inductive Written where
  | block (info : List Char) (value : String)
  | line (text : List Char)
  deriving DecidableEq

/-- The lines of text among some lines; blank ones do not count. -/
def Written.ofLines (ls : List (List Char)) : List Written :=
  (ls.filter fun line => !Text.allBlank (Text.dropLineEnd line)).map .line

/-- The blocks and the lines of text in a node. -/
def Node.written : Node → List Written
  | .text raw => Written.ofLines (Text.lines raw)
  | .code block => [.block block.fence.info block.value]
  | .marker .. => []

@[simp] theorem Node.written_text (raw : List Char) :
    (Node.text raw).written = Written.ofLines (Text.lines raw) := rfl

@[simp] theorem Node.written_code (block : CodeBlock) :
    (Node.code block).written = [.block block.fence.info block.value] := rfl

@[simp] theorem Node.written_marker (marker : Marker) (raw : List Char) :
    (Node.marker marker raw).written = [] := rfl

@[simp] theorem Node.marker?_text (raw : List Char) : (Node.text raw).marker? = none := rfl

@[simp] theorem Node.marker?_code (block : CodeBlock) : (Node.code block).marker? = none := rfl

@[simp] theorem Node.marker?_marker (marker : Marker) (raw : List Char) :
    (Node.marker marker raw).marker? = some marker := rfl

theorem Written.ofLines_cons_of_blank {line : List Char} (rest : List (List Char))
    (hblank : Text.allBlank (Text.dropLineEnd line) = true) :
    ofLines (line :: rest) = ofLines rest := by
  simp [ofLines, hblank]

theorem Written.ofLines_cons_of_not_blank {line : List Char} (rest : List (List Char))
    (hblank : Text.allBlank (Text.dropLineEnd line) = false) :
    ofLines (line :: rest) = .line line :: ofLines rest := by
  simp [ofLines, hblank]

namespace Document

/-- The blocks and the lines of text of a document in order. -/
def written (doc : Document) : List Written :=
  doc.nodes.flatMap Node.written

variable (settings : Settings)

/-- No text directly after a checked block begins as a marker does. -/
def KeepsApart : List Node → Prop
  | [] => True
  | .text _ :: rest => KeepsApart rest
  | .marker .. :: rest => KeepsApart rest
  | .code block :: rest =>
    (settings.checks block = true → ∀ raw, rest.head? = some (.text raw) → ¬ Marker.Opens raw) ∧
      KeepsApart rest

/-- How many markers are read in the text that comes next after a new marker. -/
def mistaken (newline : List Char) : Option Node → Nat
  | some (.text raw) =>
    if startsBlank raw then 0
    else ((afterMarker [] (newline :: Text.lines raw)).filterMap Node.marker?).length
  | _ => 0

/-- How many markers are read in texts after the checked blocks. -/
def mistakes : List Node → Nat
  | [] => 0
  | .text _ :: rest => mistakes rest
  | .marker .. :: rest => mistakes rest
  | .code block :: rest =>
    (if settings.checks block then mistaken block.newline rest.head? else 0) + mistakes rest

/-- Markers are not written by an author. -/
theorem written_unmarked (nodes : List Node) :
    (unmarked nodes).flatMap Node.written = nodes.flatMap Node.written := by
  induction nodes with
  | nil => rfl
  | cons node rest ih => cases node <;> simpa using ih

/-- The lines after a marker are read to markers and then go on with the nodes after them. -/
theorem markers_afterMarker (rest : List Node) (ls : List (List Char)) :
    (afterMarker rest ls).filterMap Node.marker? =
      (afterMarker [] ls).filterMap Node.marker? ++ rest.filterMap Node.marker? := by
  fun_induction afterMarker rest ls with
  | case1 => rfl
  | case2 line => simp [afterMarker, List.filterMap_cons]
  | case3 blank line more marker hmarker ih => simp [afterMarker, hmarker, ih]
  | case4 blank line more hmarker => simp [afterMarker, hmarker, List.filterMap_cons]

/-- Each marker among the lines takes one line of text. -/
theorem length_written_afterMarker {rest : List Node} {ls : List (List Char)}
    (hlines : Text.AreLines ls) :
    ((afterMarker rest ls).flatMap Node.written).length +
        ((afterMarker [] ls).filterMap Node.marker?).length =
      (Written.ofLines ls).length + (rest.flatMap Node.written).length := by
  fun_induction afterMarker rest ls with
  | case1 => simp [afterMarker, Written.ofLines]
  | case2 line =>
    have hline := Text.lines_of_isLine (hlines.isLine line (by simp))
    simp only [afterMarker, List.flatMap_cons, Node.written_text, hline, List.length_append]
    simp
  | case3 blank line more marker hmarker ih =>
    obtain ⟨-, -, htail⟩ := Text.areLines_cons.mp hlines
    obtain ⟨-, -, hmore⟩ := Text.areLines_cons.mp htail
    have hcount := ih hmore
    obtain ⟨_, _, _, hsplit, hblank, hline⟩ := markerAhead?_eq_some.mp hmarker
    obtain ⟨rfl, rfl, -⟩ : blank = _ ∧ line = _ ∧ _ := by simpa using hsplit
    have htext : Text.allBlank (Text.dropLineEnd line) = false := by
      rw [Bool.eq_false_iff]
      intro hall
      have hnone := Marker.ofLine?_eq_none_iff.mpr (Marker.not_opens_of_allBlank hall)
      rw [hline] at hnone
      cases hnone
    rw [Written.ofLines_cons_of_blank _ hblank, Written.ofLines_cons_of_not_blank _ htext]
    simp only [afterMarker, hmarker, List.flatMap_cons, Node.written_marker, List.nil_append,
      List.filterMap_cons, Node.marker?_marker, List.length_cons]
    omega
  | case4 blank line more hmarker =>
    simp only [afterMarker, hmarker, List.flatMap_cons, Node.written_text,
      Text.lines_flatten hlines, List.length_append]
    simp

section Spaced

variable {newline : List Char} (hnewline : Text.IsLineEnd newline)
include hnewline

/-- Nothing is mistaken for a marker exactly if no text comes next that begins as one does. -/
theorem mistaken_eq_zero_iff (next : Option Node) :
    mistaken newline next = 0 ↔ ∀ raw, next = some (.text raw) → ¬ Marker.Opens raw := by
  match next with
  | none => simp [mistaken]
  | some (.code block) => simp [mistaken]
  | some (.marker marker raw) => simp [mistaken]
  | some (.text raw) =>
    suffices h : mistaken newline (some (.text raw)) = 0 ↔ ¬ Marker.Opens raw by
      rw [h]
      simp
    by_cases hblank : startsBlank raw = true
    · simp [mistaken, hblank, not_opens_of_startsBlank hblank]
    · rw [mistaken, if_neg hblank, ← markerAhead?_cons_lines_eq_none_iff hnewline]
      cases hlines : Text.lines raw with
      | nil => simp [afterMarker, List.filterMap_cons]
      | cons line rest =>
        have hsame : markerAhead? (newline :: line :: rest) = markerAhead? [newline, line] := rfl
        rw [hsame]
        cases hmarker : markerAhead? [newline, line] <;>
          simp [afterMarker, hmarker, List.filterMap_cons]

omit hnewline in
/-- The blank line after a marker makes markers of what is mistaken for them. -/
theorem length_markers_spaced (nodes : List Node) :
    ((spaced newline nodes).filterMap Node.marker?).length =
      mistaken newline nodes.head? + (nodes.filterMap Node.marker?).length := by
  match nodes with
  | [] => rfl
  | .marker marker raw :: rest => simp [spaced, mistaken]
  | .code block :: rest => simp [spaced, mistaken, List.filterMap_cons]
  | .text raw :: rest =>
    by_cases hblank : startsBlank raw = true
    · simp [spaced, mistaken, hblank]
    · simp only [spaced, mistaken, hblank, List.head?_cons]
      simp [markers_afterMarker rest, List.filterMap_cons]

/-- Each marker that is made of text takes one line of it. -/
theorem length_written_spaced (nodes : List Node) :
    ((spaced newline nodes).flatMap Node.written).length + mistaken newline nodes.head? =
      (nodes.flatMap Node.written).length := by
  have hempty := hnewline.allBlank_dropLineEnd
  match nodes with
  | [] => rfl
  | .marker marker raw :: rest => rfl
  | .code block :: rest =>
    have hline := Text.lines_of_isLine hnewline.isLine
    simp only [spaced, List.flatMap_cons, Node.written_text, hline,
      Written.ofLines_cons_of_blank [] hempty]
    simp [Written.ofLines, mistaken]
  | .text raw :: rest =>
    by_cases hblank : startsBlank raw = true
    · simp [spaced, mistaken, hblank]
    · simp only [spaced, mistaken, hblank, List.head?_cons]
      simp only [Bool.false_eq_true, if_false]
      rw [length_written_afterMarker (areLines_cons_lines hnewline raw),
        Written.ofLines_cons_of_blank _ hempty, List.flatMap_cons, List.length_append,
        Node.written_text]

/-- What is written is kept if no text comes next that begins as a marker does. -/
theorem written_spaced {nodes : List Node}
    (hnext : ∀ raw, nodes.head? = some (.text raw) → ¬ Marker.Opens raw) :
    (spaced newline nodes).flatMap Node.written = nodes.flatMap Node.written := by
  have hempty := hnewline.allBlank_dropLineEnd
  match nodes with
  | [] => rfl
  | .marker marker raw :: rest => rfl
  | .code block :: rest =>
    have hline := Text.lines_of_isLine hnewline.isLine
    simp only [spaced, List.flatMap_cons, Node.written_text, hline,
      Written.ofLines_cons_of_blank [] hempty]
    simp [Written.ofLines]
  | .text raw :: rest =>
    rw [spaced_text hnewline rest (hnext raw rfl), gap]
    split
    · rw [List.flatMap_cons, Node.written_text, List.flatten_singleton,
        Text.lines_append_of_isTerminated hnewline.isLine hnewline.isTerminated,
        Written.ofLines_cons_of_blank _ hempty]
      rfl
    · rfl

end Spaced

section Reread

variable {settings : Settings} {number : Nat} {markers : List Marker} {nodes : List Node}

theorem mistaken_head?_reread (newline : List Char) :
    mistaken newline (reread settings number markers nodes).head? =
      mistaken newline nodes.head? := by
  fun_cases reread settings number markers nodes <;> simp [mistaken]

/-- Nothing is mistaken for a marker exactly if texts are kept apart. -/
theorem mistakes_eq_zero_iff : mistakes settings nodes = 0 ↔ KeepsApart settings nodes := by
  fun_induction KeepsApart settings nodes with
  | case1 => simp [mistakes]
  | case2 raw rest ih => exact ih
  | case3 marker raw rest ih => exact ih
  | case4 block rest ih =>
    rw [mistakes, Nat.add_eq_zero_iff, ih]
    by_cases hchecks : settings.checks block = true
    · simp [hchecks, mistaken_eq_zero_iff block.isLineEnd_newline]
    · simp [hchecks]

/-- With as many markers as blocks are checked, a block without a marker is not checked. -/
theorem checks_eq_false {block : CodeBlock} {rest : List Node}
    (h : ∀ marker more, markers = marker :: more → settings.checks block = true → False)
    (hlength : markers.length = (checked settings (.code block :: rest)).length) :
    settings.checks block = false := by
  rw [Bool.eq_false_iff]
  intro hchecks
  rw [checked_code, if_pos hchecks, List.length_cons] at hlength
  obtain ⟨marker, more, hmarkers⟩ := List.exists_cons_of_length_eq_add_one hlength
  exact h marker more hmarkers hchecks

/-- Reading an annotated document again finds the markers that were there, the new ones, and those
that text is mistaken for. -/
theorem length_markers_reread (number : Nat)
    (hlength : markers.length = (checked settings nodes).length) :
    ((reread settings number markers nodes).filterMap Node.marker?).length =
      (nodes.filterMap Node.marker?).length + markers.length + mistakes settings nodes := by
  fun_induction reread settings number markers nodes with
  | case1 => simpa [mistakes] using hlength.symm
  | case2 number markers raw rest ih => simpa [List.filterMap_cons, mistakes] using ih hlength
  | case3 number markers marker raw rest ih =>
    have hcount := ih hlength
    simp only [List.filterMap_cons, Node.marker?_marker, List.length_cons, mistakes]
    omega
  | case4 number block rest marker markers hchecks ih =>
    simp only [checked_code, hchecks, if_true, List.length_cons,
      Nat.add_right_cancel_iff] at hlength
    have hcount := ih hlength
    simp only [List.filterMap_cons, Node.marker?_marker, Node.marker?_code, List.length_cons,
      mistakes, hchecks, if_true, length_markers_spaced, mistaken_head?_reread]
    omega
  | case5 number block rest markers h ih =>
    have hchecks := checks_eq_false h hlength
    simp only [checked_code, hchecks, Bool.false_eq_true, if_false] at hlength
    simpa [List.filterMap_cons, mistakes, hchecks] using ih hlength

/-- Of what is written, reading again loses one line for each marker that text is mistaken for. -/
theorem length_written_reread (number : Nat)
    (hlength : markers.length = (checked settings nodes).length) :
    ((reread settings number markers nodes).flatMap Node.written).length +
        mistakes settings nodes =
      (nodes.flatMap Node.written).length := by
  fun_induction reread settings number markers nodes with
  | case1 => rfl
  | case2 number markers raw rest ih =>
    have hcount := ih hlength
    simp only [List.flatMap_cons, List.length_append, mistakes]
    omega
  | case3 number markers marker raw rest ih => simpa [mistakes] using ih hlength
  | case4 number block rest marker markers hchecks ih =>
    simp only [checked_code, hchecks, if_true, List.length_cons,
      Nat.add_right_cancel_iff] at hlength
    have hcount := ih hlength
    have hspaced := length_written_spaced block.isLineEnd_newline (reread settings
      (number + block.lines.length + 2 + (gap block.newline rest.head?).length) markers rest)
    rw [mistaken_head?_reread] at hspaced
    simp only [List.flatMap_cons, Node.written_code, Node.written_marker, List.length_append,
      List.length_nil, List.length_singleton, mistakes, hchecks, if_true]
    omega
  | case5 number block rest markers h ih =>
    have hchecks := checks_eq_false h hlength
    simp only [checked_code, hchecks, Bool.false_eq_true, if_false] at hlength
    have hcount := ih hlength
    simp only [List.flatMap_cons, Node.written_code, List.length_append, List.length_singleton,
      mistakes, hchecks, Bool.false_eq_true, if_false]
    omega

/-- What is written is read again if texts are kept apart from checked blocks. -/
theorem written_reread (hapart : KeepsApart settings nodes) :
    (reread settings number markers nodes).flatMap Node.written =
      nodes.flatMap Node.written := by
  fun_induction reread settings number markers nodes with
  | case1 => rfl
  | case2 number markers raw rest ih => simp [ih hapart]
  | case3 number markers marker raw rest ih => simp [ih hapart]
  | case4 number block rest marker markers hchecks ih =>
    obtain ⟨hnext, hrest⟩ := hapart
    rw [List.flatMap_cons, List.flatMap_cons, written_spaced block.isLineEnd_newline fun raw hraw =>
      hnext hchecks raw (head?_reread_text.mp hraw), ih hrest]
    simp
  | case5 number block rest markers h ih => simp [ih hapart.2]

end Reread

end Document

end Doctest
