import Doctest.Check.Document
import Doctest.Proofs.Document.Gap
import Doctest.Proofs.Document.Renumbering

/-!
# Reading a checked document again

After a check, the text of a document is read to its nodes with a marker after each checked block
and the blank line that follows it. `reread` tells these nodes from those of the document, and no
text has to be looked at from then on.
-/

namespace Doctest

section OnLine

variable (block : CodeBlock) (number : Nat)

@[simp] theorem CodeBlock.ended_onLine :
    (block.onLine number).ended = block.ended.onLine number := rfl

@[simp] theorem Settings.checks_onLine (settings : Settings) :
    settings.checks (block.onLine number) = settings.checks block := rfl

@[simp] theorem Settings.checks_ended (settings : Settings) :
    settings.checks block.ended = settings.checks block := rfl

@[simp] theorem CodeBlock.length_lines_ended : block.ended.lines.length = block.lines.length := by
  cases hclosing : block.closing <;> simp [CodeBlock.lines, CodeBlock.ended, hclosing]

end OnLine

namespace Document

variable (settings : Settings)

/-- The blocks among some nodes that are checked. -/
def checked (nodes : List Node) : List CodeBlock :=
  (nodes.filterMap Node.code?).filter settings.checks

@[simp] theorem checked_nil : checked settings [] = [] := rfl

@[simp] theorem checked_text (raw : List Char) (rest : List Node) :
    checked settings (.text raw :: rest) = checked settings rest := rfl

@[simp] theorem checked_marker (marker : Marker) (raw : List Char) (rest : List Node) :
    checked settings (.marker marker raw :: rest) = checked settings rest := rfl

@[simp] theorem checked_code (block : CodeBlock) (rest : List Node) :
    checked settings (.code block :: rest) =
      if settings.checks block then block :: checked settings rest else checked settings rest :=
  List.filter_cons

theorem mem_checked_cons {settings : Settings} {node : Node} {rest : List Node} {block : CodeBlock}
    (hmem : block ∈ checked settings rest) : block ∈ checked settings (node :: rest) := by
  cases node with
  | text raw => exact hmem
  | marker marker raw => exact hmem
  | code first =>
    rw [checked_code]
    split
    · exact List.mem_cons_of_mem _ hmem
    · exact hmem

/-- What nodes are read to, from a line on, when the checked blocks among them have got markers. -/
def reread (number : Nat) (markers : List Marker) : List Node → List Node
  | [] => []
  | .text raw :: rest => .text raw :: reread (number + (Text.lines raw).length) markers rest
  | .marker marker raw :: rest =>
    .marker marker raw :: reread (number + (Text.lines raw).length) markers rest
  | .code block :: rest =>
    match markers, settings.checks block with
    | marker :: markers, true =>
      .code (block.ended.onLine number) ::
        .marker marker (block.newline ++ (marker.text ++ block.newline)) ::
          spaced block.newline (reread
            (number + block.lines.length + 2 + (gap block.newline rest.head?).length) markers rest)
    | markers, _ =>
      .code (block.onLine number) :: reread (number + block.lines.length) markers rest

variable {settings}

/-- A block that is not checked gets no marker. -/
theorem annotateNodes_code {markers : List Marker} {block : CodeBlock} {rest : List Node}
    (h : ∀ marker more, markers = marker :: more → settings.checks block = true → False) :
    annotateNodes settings.checks markers (.code block :: rest) =
      .code block :: annotateNodes settings.checks markers rest := by
  cases markers with
  | nil => cases rest <;> rfl
  | cons marker markers => rw [annotateNodes, if_neg (h marker markers rfl)]

theorem annotateNodes_text (markers : List Marker) (raw : List Char) (rest : List Node) :
    annotateNodes settings.checks markers (.text raw :: rest) =
      .text raw :: annotateNodes settings.checks markers rest := by
  cases markers <;> cases rest <;> rfl

theorem annotateNodes_marker (markers : List Marker) (marker : Marker) (raw : List Char)
    (rest : List Node) :
    annotateNodes settings.checks markers (.marker marker raw :: rest) =
      .marker marker raw :: annotateNodes settings.checks markers rest := by
  cases markers <;> cases rest <;> rfl

/-- The characters of a checked block with its marker, and of what comes after. -/
theorem raw_annotateNodes_checked {block : CodeBlock} (hchecks : settings.checks block = true)
    (hclosed : block.isClosed = true) (marker : Marker) (markers : List Marker)
    (rest : List Node) :
    (annotateNodes settings.checks (marker :: markers) (.code block :: rest)).flatMap Node.raw =
      block.ended.raw ++ (block.newline ++ (marker.text ++ (block.newline ++
        ((gap block.newline rest.head?).flatten ++
          (annotateNodes settings.checks markers rest).flatMap Node.raw)))) := by
  have hjoin := raw_append_markerAfter hclosed marker rest.head?
  rw [annotateNodes, if_pos hchecks, List.flatMap_cons, List.flatMap_cons, ← List.append_assoc,
    Node.raw_code, hjoin]
  simp only [List.append_assoc]

/-- The text at the front of what is read again is that at the front of the nodes. -/
theorem head?_reread_text {number : Nat} {markers : List Marker} {nodes : List Node}
    {raw : List Char} :
    (reread settings number markers nodes).head? = some (.text raw) ↔
      nodes.head? = some (.text raw) := by
  fun_cases reread settings number markers nodes <;> simp

theorem needsGap_head?_reread (number : Nat) (markers : List Marker) (nodes : List Node) :
    needsGap (reread settings number markers nodes).head? = needsGap nodes.head? := by
  fun_cases reread settings number markers nodes <;> simp [needsGap]

theorem gap_head?_reread (newline : List Char) (number : Nat) (markers : List Marker)
    (nodes : List Node) :
    gap newline (reread settings number markers nodes).head? = gap newline nodes.head? := by
  rw [gap, needsGap_head?_reread, gap]

/-- The lines after a marker are a blank line if one is needed, and those read again. -/
theorem lines_spaced_reread (block : CodeBlock) (number : Nat) (markers : List Marker)
    (nodes : List Node) :
    (spaced block.newline (reread settings number markers nodes)).flatMap Node.lines =
      gap block.newline nodes.head? ++
        (reread settings number markers nodes).flatMap Node.lines := by
  rw [lines_spaced block.isLineEnd_newline, gap_head?_reread]

/-- The characters after a marker are a blank line if one is needed, and those read again. -/
theorem raw_spaced_reread (block : CodeBlock) (number : Nat) (markers : List Marker)
    (nodes : List Node) :
    (spaced block.newline (reread settings number markers nodes)).flatMap Node.raw =
      (gap block.newline nodes.head?).flatten ++
        (reread settings number markers nodes).flatMap Node.raw := by
  rw [← Node.flatten_flatMap_lines, lines_spaced_reread, List.flatten_append,
    Node.flatten_flatMap_lines]

/-- What is read again are the characters of the annotated document. -/
theorem raw_reread {number : Nat} {markers : List Marker} {nodes : List Node}
    (hclosed : ∀ block ∈ checked settings nodes, block.isClosed = true) :
    (reread settings number markers nodes).flatMap Node.raw =
      (annotateNodes settings.checks markers nodes).flatMap Node.raw := by
  fun_induction reread settings number markers nodes with
  | case1 => cases ‹List Marker› <;> rfl
  | case2 number markers raw rest ih => simp [annotateNodes_text, ih hclosed]
  | case3 number markers marker raw rest ih => simp [annotateNodes_marker, ih hclosed]
  | case4 number block rest marker markers hchecks ih =>
    simp only [checked_code, hchecks, if_true, List.forall_mem_cons] at hclosed
    rw [raw_annotateNodes_checked hchecks hclosed.1, ← ih hclosed.2, ← raw_spaced_reread]
    simp
  | case5 number block rest markers h ih =>
    rw [annotateNodes_code h]
    simp [ih fun other hmem => hclosed other (mem_checked_cons hmem)]

/-- Nothing is read again where there was nothing. -/
theorem lines_reread_eq_nil {number : Nat} {markers : List Marker} {nodes : List Node}
    (h : nodes.flatMap Node.lines = []) :
    (reread settings number markers nodes).flatMap Node.lines = [] := by
  fun_induction reread settings number markers nodes <;> simp_all [CodeBlock.lines]

/-- What is read again are the lines of a text. -/
theorem areLines_reread {number : Nat} {markers : List Marker} {nodes : List Node}
    (hlines : Text.AreLines (nodes.flatMap Node.lines))
    (hclosed : ∀ block ∈ checked settings nodes, block.isClosed = true)
    (hmarkers : ∀ marker ∈ markers, marker.WellFormed) :
    Text.AreLines ((reread settings number markers nodes).flatMap Node.lines) := by
  have hsame {node : Node} {rest again : List Node}
      (hlines : Text.AreLines ((node :: rest).flatMap Node.lines))
      (hnil : rest.flatMap Node.lines = [] → again.flatMap Node.lines = [])
      (hagain : Text.AreLines (again.flatMap Node.lines)) :
      Text.AreLines (node.lines ++ again.flatMap Node.lines) := by
    rw [List.flatMap_cons, Text.areLines_append] at hlines
    exact Text.areLines_append.mpr ⟨hlines.1, fun h => hlines.2.1 (mt hnil h), hagain⟩
  fun_induction reread settings number markers nodes with
  | case1 => exact Text.areLines_nil
  | case2 number markers raw rest ih =>
    have hrest := (Text.areLines_append.mp hlines).2.2
    exact hsame hlines lines_reread_eq_nil (ih hrest hclosed hmarkers)
  | case3 number markers marker raw rest ih =>
    have hrest := (Text.areLines_append.mp hlines).2.2
    exact hsame hlines lines_reread_eq_nil (ih hrest hclosed hmarkers)
  | case4 number block rest marker markers hchecks ih =>
    simp only [checked_code, hchecks, if_true, List.forall_mem_cons] at hclosed
    rw [List.forall_mem_cons] at hmarkers
    obtain ⟨hblock, -, hrest⟩ := Text.areLines_append.mp hlines
    have hnewline := block.isLineEnd_newline
    simp only [List.flatMap_cons, lines_spaced_reread, Node.lines_code, Node.lines_marker,
      hnewline.lines_blank_append hmarkers.1.noFeed]
    refine .append_left (.append_left (.append_left (ih hrest hclosed.2 hmarkers.2) ?_) ?_) ?_
    · intro line hmem
      unfold gap at hmem
      split at hmem
      · obtain rfl : line = block.newline := by simpa using hmem
        exact ⟨hnewline.isLine, hnewline.isTerminated⟩
      · cases hmem
    · simpa using ⟨⟨hnewline.isLine, hnewline.isTerminated⟩,
        hnewline.isLine_append hmarkers.1.noFeed, hnewline.isTerminated_append marker.text⟩
    · exact CodeBlock.isTerminated_lines_ended hclosed.1 hblock
  | case5 number block rest markers h ih =>
    have hrest := (Text.areLines_append.mp hlines).2.2
    exact hsame hlines lines_reread_eq_nil
      (ih hrest (fun other hmem => hclosed other (mem_checked_cons hmem)) hmarkers)

/-- What is read again stands as it is read. -/
theorem arranged_reread {marks : Bool} {number : Nat} {markers : List Marker} {nodes : List Node}
    (harranged : Arranged marks nodes)
    (hclosed : ∀ block ∈ checked settings nodes, block.isClosed = true)
    (hmarkers : ∀ marker ∈ markers, marker.WellFormed) :
    Arranged marks (reread settings number markers nodes) := by
  fun_induction reread settings number markers nodes generalizing marks with
  | case1 => trivial
  | case2 number markers raw rest ih =>
    obtain ⟨hne, hopen, hmarker, hnext, hrest⟩ := harranged
    exact ⟨hne, hopen, hmarker, fun next => mt head?_reread_text.mp (hnext next),
      ih hrest hclosed hmarkers⟩
  | case3 number markers marker raw rest ih =>
    obtain ⟨hmarks, hlength, hmarker, hrest⟩ := harranged
    exact ⟨hmarks, hlength, hmarker, ih hrest hclosed hmarkers⟩
  | case4 number block rest marker markers hchecks ih =>
    simp only [checked_code, hchecks, if_true, List.forall_mem_cons] at hclosed
    rw [List.forall_mem_cons] at hmarkers
    obtain ⟨hblock, -, hrest⟩ := harranged
    have hnewline := block.isLineEnd_newline
    have hagain := ih hrest hclosed.2 hmarkers.2
    have hmark := hnewline.lines_blank_append hmarkers.1.noFeed
    have hahead := markerAhead?_of_wellFormed hnewline hmarkers.1 []
    rw [hclosed.1] at hagain
    refine ⟨hblock.ended.onLine number, .inl (by simp [hclosed.1]), ?_⟩
    rw [Arranged, hmark]
    exact ⟨by simp [hclosed.1], rfl, hahead, arranged_spaced hnewline hagain⟩
  | case5 number block rest markers h ih =>
    obtain ⟨hblock, hlast, hrest⟩ := harranged
    refine ⟨hblock.onLine number, ?_, ih hrest (fun other hmem =>
      hclosed other (mem_checked_cons hmem)) hmarkers⟩
    rcases hlast with hlast | rfl
    · exact .inl hlast
    · exact .inr rfl

/-- What is read again has the numbers of its lines. -/
theorem numbered_reread {number : Nat} {markers : List Marker} {nodes : List Node}
    (hmarkers : ∀ marker ∈ markers, marker.WellFormed) :
    Numbered number (reread settings number markers nodes) := by
  fun_induction reread settings number markers nodes with
  | case1 => trivial
  | case2 number markers raw rest ih => exact ⟨by simp [Node.code?], ih hmarkers⟩
  | case3 number markers marker raw rest ih => exact ⟨by simp [Node.code?], ih hmarkers⟩
  | case4 number block rest marker markers hchecks ih =>
    rw [List.forall_mem_cons] at hmarkers
    have hnewline := block.isLineEnd_newline
    refine ⟨by simp [Node.code?], by simp [Node.code?], numbered_spaced hnewline ?_⟩
    rw [Node.lines_marker, hnewline.lines_blank_append hmarkers.1.noFeed, gap_head?_reread]
    simpa using ih hmarkers.2
  | case5 number block rest markers h ih =>
    exact ⟨by simp [Node.code?], ih hmarkers⟩

/-- **Rereading.** The text of a document whose checked blocks are closed and have got markers is
read to the nodes that `reread` tells. -/
theorem parse_render_annotate {doc : Document} {markers : List Marker}
    (hlines : Text.AreLines doc.lines) (harranged : Arranged false doc.nodes)
    (hclosed : ∀ block ∈ checked settings doc.nodes, block.isClosed = true)
    (hmarkers : ∀ marker ∈ markers, marker.WellFormed) :
    parse (doc.annotate settings.checks markers).render =
      ⟨reread settings 1 markers doc.nodes⟩ := by
  have hrender : (doc.annotate settings.checks markers).render =
      render ⟨reread settings 1 markers doc.nodes⟩ := by
    rw [render, render, annotate, raw_reread hclosed]
  rw [hrender]
  exact parse_render
    { lines := areLines_reread hlines hclosed hmarkers
      arranged := arranged_reread harranged hclosed hmarkers
      numbered := numbered_reread hmarkers }

end Document

end Doctest
