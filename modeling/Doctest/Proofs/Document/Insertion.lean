import Doctest.Proofs.Document.Gap

/-!
# Putting a marker after a block

A marker that is put after a closed block is read again directly after the same block. A block
without a closing line takes in what is put after it.
-/

namespace Doctest.Document

/-- Whether a block stands at a position as `block` is written, with a marker directly after it. -/
def IsMarkedAt (doc : Document) (index : Nat) (block : CodeBlock) (marker : Marker) : Prop :=
  ∃ found raw, doc.nodes[index]? = some (.code found) ∧
    doc.nodes[index + 1]? = some (.marker marker raw) ∧ found.opening = block.opening ∧
    found.value = block.value ∧ found.isClosed = block.isClosed

/-- A node at a position stands between the nodes before it and those after it. -/
theorem exists_append_of_getElem? {nodes : List Node} {index : Nat} {node : Node}
    (h : nodes[index]? = some node) :
    ∃ before after, nodes = before ++ node :: after ∧ before.length = index := by
  obtain ⟨hlt, hnode⟩ := List.getElem?_eq_some_iff.mp h
  refine ⟨nodes.take index, nodes.drop (index + 1), ?_, List.length_take_of_le (Nat.le_of_lt hlt)⟩
  rw [← hnode, ← List.drop_eq_getElem_cons, List.take_append_drop]

/-- A marker can be put after every code block. -/
theorem insertAt?_append (marker : Marker) (before : List Node) (block : CodeBlock)
    (after : List Node) :
    insertAt? marker before.length (before ++ .code block :: after) =
      some (before ++ .code block :: markerAfter block marker after.head? :: after) := by
  induction before with
  | nil => rfl
  | cons node before ih => simp [insertAt?, ih]

/-- Numbered nodes are numbered from the front, and then the rest from there. -/
theorem numbered_append {number : Nat} {front back : List Node} :
    Numbered number (front ++ back) ↔
      Numbered number front ∧ Numbered (number + (front.flatMap Node.lines).length) back := by
  induction front generalizing number with
  | nil => simp [Numbered]
  | cons node front ih =>
    rw [List.cons_append, Numbered, Numbered, ih, and_assoc, List.flatMap_cons,
      List.length_append, Nat.add_assoc]

/-- The nodes after others are arranged as they are read there. -/
theorem Arranged.of_append {marks : Bool} {front back : List Node}
    (h : Arranged marks (front ++ back)) : Arranged (marksAfter marks front) back := by
  induction front generalizing marks with
  | nil => exact h
  | cons node front ih =>
    cases node with
    | marker marker raw => exact ih h.2.2.2
    | code block => exact ih h.2.2
    | text raw => exact ih h.2.2.2.2

/-- Nodes stay arranged when they are cut off after a block that is replaced by another. -/
theorem Arranged.replaceLast {marks : Bool} {before after : List Node} {block other : CodeBlock}
    (harranged : Arranged marks (before ++ .code block :: after)) (hother : other.WellFormed) :
    Arranged marks (before ++ [.code other]) := by
  induction before generalizing marks with
  | nil => exact ⟨hother, .inr rfl, trivial⟩
  | cons node before ih =>
    cases node with
    | marker marker raw =>
      obtain ⟨hmarks, hlength, hmarker, hrest⟩ := harranged
      exact ⟨hmarks, hlength, hmarker, ih hrest⟩
    | code first =>
      obtain ⟨hblock, hclosed, hrest⟩ := harranged
      exact ⟨hblock, .inl (hclosed.resolve_right (by simp)), ih hrest⟩
    | text raw =>
      obtain ⟨hne, hopen, hmarker, hnext, hrest⟩ := harranged
      refine ⟨hne, hopen, hmarker, fun next => ?_, ih hrest⟩
      cases before with
      | nil => simp
      | cons node before => simpa using hnext next

/-- Lines after a closed block are read in the mode that allows markers. -/
theorem marksAfter_append_code (marks : Bool) (before : List Node) (block : CodeBlock) :
    marksAfter marks (before ++ [.code block]) = block.isClosed := by
  induction before generalizing marks with
  | nil => rfl
  | cons node before ih => cases node <;> exact ih _

/-- The nodes up to a closed block whose closing line is terminated. -/
def upTo (before : List Node) (block : CodeBlock) : List Node :=
  before ++ [.code block.ended]

/-- The nodes up to a closed block stay as they are read. -/
theorem upTo_arranged {before after : List Node} {block : CodeBlock}
    (hdoc : WellFormed ⟨before ++ .code block :: after⟩) : Arranged false (upTo before block) :=
  hdoc.arranged.replaceLast hdoc.arranged.of_append.1.ended

theorem upTo_numbered {before after : List Node} {block : CodeBlock}
    (hdoc : WellFormed ⟨before ++ .code block :: after⟩) : Numbered 1 (upTo before block) := by
  obtain ⟨hbefore, hblock, -⟩ := numbered_append.mp hdoc.numbered
  refine numbered_append.mpr ⟨hbefore, fun ended hended => ?_, trivial⟩
  obtain rfl : block.ended = ended := Option.some.inj hended
  exact hblock block rfl

/-- The lines up to a closed block are terminated. -/
theorem upTo_isTerminated {before after : List Node} {block : CodeBlock}
    (hdoc : WellFormed ⟨before ++ .code block :: after⟩) (hclosed : block.isClosed = true) :
    ∀ line ∈ (upTo before block).flatMap Node.lines,
      Text.IsLine line ∧ Text.IsTerminated line := by
  have hlines := hdoc.lines
  rw [lines, List.flatMap_append, List.flatMap_cons, Node.lines_code, Text.areLines_append,
    Text.areLines_append] at hlines
  obtain ⟨hfront, hend, hown, -, -⟩ := hlines
  intro line hmem
  rw [upTo, List.flatMap_append, List.mem_append] at hmem
  rcases hmem with hmem | hmem
  · exact ⟨hfront.isLine line hmem, hend (by simp [CodeBlock.lines]) line hmem⟩
  · exact CodeBlock.isTerminated_lines_ended hclosed hown line (by simpa using hmem)

/-- After nodes that end with a closed block, a blank line and the line of a marker are read to
the marker, whatever text comes after them. -/
theorem nodes_parse_append_marker {front : List Node} {newline : List Char} {marker : Marker}
    (harranged : Arranged false front) (hnumbered : Numbered 1 front)
    (hmarks : marksAfter false front = true)
    (hterminated : ∀ line ∈ front.flatMap Node.lines, Text.IsLine line ∧ Text.IsTerminated line)
    (hnewline : Text.IsLineEnd newline) (hmarker : marker.WellFormed) (t : List Char) :
    ∃ rest, (parse (String.ofList (front.flatMap Node.raw ++
      (newline ++ (marker.text ++ newline ++ t))))).nodes =
        front ++ .marker marker (newline ++ (marker.text ++ newline)) :: rest := by
  have hcut : Text.lines (front.flatMap Node.raw ++ (newline ++ (marker.text ++ newline ++ t))) =
      front.flatMap Node.lines ++ newline :: (marker.text ++ newline) :: Text.lines t := by
    rw [← Node.flatten_flatMap_lines,
      Text.lines_flatten_append (fun line hline => (hterminated line hline).1)
        (fun line hline => (hterminated line hline).2),
      Text.lines_append_of_isTerminated hnewline.isLine hnewline.isTerminated,
      hnewline.lines_append hmarker.noFeed]
  have hahead := markerAhead?_of_wellFormed hnewline hmarker (Text.lines t)
  have hread : nodesAfter false 1 (front.flatMap Node.lines ++
      newline :: (marker.text ++ newline) :: Text.lines t) = _ :=
    nodesAfter_append harranged hnumbered (.inr hmarks)
  rw [hmarks, nodesAfter_marker _ hahead] at hread
  rw [parse, String.toList_ofList, hcut]
  exact ⟨_, hread⟩

/-- The text of a document with a marker after a closed block. -/
theorem render_insert (before after : List Node) {block : CodeBlock}
    (hclosed : block.isClosed = true) (marker : Marker) :
    ∃ t, render ⟨before ++ .code block :: markerAfter block marker after.head? :: after⟩ =
      String.ofList ((upTo before block).flatMap Node.raw ++
        (block.newline ++ (marker.text ++ block.newline ++ t))) := by
  refine ⟨(gap block.newline after.head?).flatten ++ after.flatMap Node.raw, ?_⟩
  have hjoin := raw_append_markerAfter hclosed marker after.head?
  rw [render, List.flatMap_append, List.flatMap_cons, List.flatMap_cons,
    ← List.append_assoc (Node.raw _), Node.raw, hjoin, upTo]
  simp [Node.raw]

/-- A block with a marker after it in what a text is read to is closed. -/
theorem isClosed_of_isMarkedAt {text : String} {index : Nat} {block : CodeBlock} {marker : Marker}
    (h : (parse text).IsMarkedAt index block marker) : block.isClosed = true := by
  obtain ⟨found, raw, hfound, hnext, -, -, hclosed⟩ := h
  rw [← hclosed]
  obtain ⟨front, back, hnodes, hlength⟩ := exists_append_of_getElem? hfound
  have harranged := (wellFormed_parse text).arranged
  rw [hnodes] at harranged hnext
  refine harranged.of_append.2.1.resolve_right ?_
  rintro rfl
  simp [← hlength] at hnext

/-- A marker after a closed block is read again there. -/
theorem isMarkedAt_markerAfter {before after : List Node} {block : CodeBlock} {marker : Marker}
    (hdoc : WellFormed ⟨before ++ .code block :: after⟩) (hclosed : block.isClosed = true)
    (hmarker : marker.WellFormed) :
    (parse (render ⟨before ++ .code block :: markerAfter block marker after.head? :: after⟩))
      |>.IsMarkedAt before.length block marker := by
  have hmarks : marksAfter false (upTo before block) = true := by
    rw [upTo, marksAfter_append_code, CodeBlock.isClosed_ended, hclosed]
  obtain ⟨t, htext⟩ := render_insert before after hclosed marker
  obtain ⟨rest, hread⟩ := nodes_parse_append_marker (upTo_arranged hdoc) (upTo_numbered hdoc)
    hmarks (upTo_isTerminated hdoc hclosed) block.isLineEnd_newline hmarker t
  rw [← htext, upTo, List.append_assoc, List.singleton_append] at hread
  refine ⟨block.ended, block.newline ++ (marker.text ++ block.newline), ?_, ?_, rfl, rfl, by simp⟩
  · rw [hread]
    simp
  · rw [hread]
    simp

/-- **Marking.** A marker can be put after every code block of what a text is read to. The block
is read again as it was written, with the marker directly after it, exactly if it is closed. -/
theorem insertMarker_isMarkedAt_iff {source : String} {index : Nat} {block : CodeBlock}
    {marker : Marker} (hblock : (parse source).nodes[index]? = some (.code block))
    (hmarker : marker = .pass ∨ ∃ message, marker = .fail message) :
    ∃ doc, (parse source).insertMarker? index marker = some doc ∧
      ((parse doc.render).IsMarkedAt index block marker ↔ block.isClosed = true) := by
  obtain ⟨before, after, hnodes, rfl⟩ := exists_append_of_getElem? hblock
  have hinsert : (parse source).insertMarker? before.length marker =
      some ⟨before ++ .code block :: markerAfter block marker after.head? :: after⟩ := by
    rw [insertMarker?, hnodes, insertAt?_append]
    rfl
  have hdoc : WellFormed ⟨before ++ .code block :: after⟩ := by
    rw [← hnodes]
    exact wellFormed_parse source
  have hwell : marker.WellFormed := by
    rcases hmarker with rfl | ⟨message, rfl⟩
    · exact Marker.wellFormed_pass
    · exact Marker.wellFormed_fail message
  refine ⟨_, hinsert, isClosed_of_isMarkedAt, fun hclosed => ?_⟩
  exact isMarkedAt_markerAfter hdoc hclosed hwell

/-- A closed block on lines with carriage returns and without a terminator at its end is marked. -/
theorem isMarkedAt_unterminated :
    ∃ block, (parse "a\n~~~ js\r\n> 1\r\n~~~").nodes[1]? = some (.code block) ∧
      block.isClosed = true ∧
      ∃ doc, (parse "a\n~~~ js\r\n> 1\r\n~~~").insertMarker? 1 (.fail "no\nvalue") = some doc ∧
        (parse doc.render).IsMarkedAt 1 block (.fail "no\nvalue") := by
  have hblock : (parse "a\n~~~ js\r\n> 1\r\n~~~").nodes[1]? = some (.code
      ⟨2, ⟨0, '~', 3, "js".toList⟩, "~~~ js\r\n".toList, ["> 1\r\n".toList],
        some "~~~".toList⟩) := by decide +kernel
  obtain ⟨doc, hdoc, hmarked⟩ := insertMarker_isMarkedAt_iff hblock (.inr ⟨"no\nvalue", rfl⟩)
  exact ⟨_, hblock, rfl, doc, hdoc, hmarked.mpr rfl⟩

/-- A block that runs to the end of the text takes in the marker that is put after it. -/
theorem unclosed_takes_marker :
    ∃ block doc, (parse "\x60\x60\x60js\n> 1\n1\n").nodes[0]? = some (.code block) ∧
      block.value = "> 1\n1" ∧
      (parse "\x60\x60\x60js\n> 1\n1\n").insertMarker? 0 .pass = some doc ∧
      (parse doc.render).codeBlocks.map CodeBlock.value = ["> 1\n1\n\n✅ \x60speccheck\x60ed"] ∧
      ¬ (parse doc.render).IsMarkedAt 0 block .pass := by
  refine ⟨⟨1, ⟨0, Fence.backtick, 3, "js".toList⟩, "\x60\x60\x60js\n".toList,
      ["> 1\n".toList, "1\n".toList], none⟩,
    ⟨(parse "\x60\x60\x60js\n> 1\n1\n").nodes ++
      [.marker .pass "\n✅ \x60speccheck\x60ed\n".toList]⟩,
    by decide +kernel, by decide +kernel, by decide +kernel, by decide +kernel, ?_⟩
  rintro ⟨found, raw, -, hmarker, -⟩
  have hnone : (parse (render ⟨(parse "\x60\x60\x60js\n> 1\n1\n").nodes ++
      [.marker .pass "\n✅ \x60speccheck\x60ed\n".toList]⟩)).nodes[0 + 1]? = none := by
    decide +kernel
  cases hnone.symm.trans hmarker

end Doctest.Document
