import Doctest.Proofs.Check.Round
import Doctest.Proofs.Document.LineEnds

/-!
# Checking with other line ends

A text without carriage returns is checked to the same report when one is put before each of its
line feeds, and it is rendered to the same text with these carriage returns: each new marker takes
its line ends from the block that it stands after.
-/

namespace Doctest

namespace CodeBlock

variable {block : CodeBlock}

/-- The code is the same. -/
theorem value_withReturns (hends : ∀ line ∈ block.body, Text.Evenly line) :
    block.withReturns.value = block.value := by
  rw [value, value, withReturns, List.map_map]
  refine congrArg (String.intercalate "\n") (List.map_congr_left fun line hmem => ?_)
  rw [Function.comp_apply, codeLine, codeLine, hends line hmem]

/-- What ends the line of the opening fence gets its carriage return. -/
theorem newline_withReturns (hline : Text.IsLine block.opening)
    (hend : Text.IsTerminated block.opening) (hreturn : '\r' ∉ block.opening) :
    block.withReturns.newline = Text.withReturns block.newline := by
  obtain ⟨s, hs, hopening⟩ := Text.isLine_and_isTerminated_iff.mp ⟨hline, hend⟩
  have hfeed : block.newline = ['\n'] := by
    rw [newline, if_neg]
    intro hsuffix
    exact hreturn ((List.isSuffixOf_iff_suffix.mp hsuffix).subset (by simp))
  have hboth : block.withReturns.newline = ['\r', '\n'] := by
    rw [newline, if_pos]
    rw [withReturns, hopening, Text.withReturns_append, Text.withReturns_feed,
      List.isSuffixOf_iff_suffix]
    exact List.suffix_append _ _
  rw [hfeed, hboth, Text.withReturns_feed]

/-- The line of the opening fence of a closed block is terminated. -/
theorem isTerminated_opening (hlines : Text.AreLines block.lines)
    (hclosed : block.isClosed = true) : Text.IsTerminated block.opening := by
  obtain ⟨closing, hclosing⟩ := Option.isSome_iff_exists.mp hclosed
  refine hlines.terminated _ ?_
  rw [lines, hclosing, Option.toList_some, List.dropLast_concat]
  exact List.mem_cons_self

/-- The last line is terminated if it was. -/
@[simp] theorem endsLine_withReturns (block : CodeBlock) :
    block.withReturns.endsLine = block.endsLine := by
  have hlast : block.withReturns.lastLine = Text.withReturns block.lastLine := by
    cases hclosing : block.closing with
    | some closing => simp [lastLine, withReturns, hclosing]
    | none => simp [lastLine, withReturns, hclosing, List.getLastD_eq_getLast?, Option.getD_map]
  rw [endsLine, endsLine, hlast, Text.getLast?_withReturns]

end CodeBlock

/-- The same blocks are checked. -/
@[simp] theorem Settings.checks_withReturns (settings : Settings) (block : CodeBlock) :
    settings.checks block.withReturns = settings.checks block := rfl

namespace Document

variable {settings : Settings}

/-- A text begins with a blank line if it did. -/
theorem startsBlank_withReturns {raw : List Char}
    (hends : ∀ line ∈ Text.lines raw, Text.Evenly line) :
    startsBlank (Text.withReturns raw) = startsBlank raw := by
  rw [startsBlank, startsBlank, Text.lines_withReturns]
  cases hlines : Text.lines raw with
  | nil => rfl
  | cons line rest =>
    rw [List.map_cons]
    exact congrArg Text.allBlank (hends line (hlines ▸ List.mem_cons_self))

/-- A blank line is needed where one was needed. -/
theorem needsGap_withReturns {next : Option Node}
    (hends : ∀ node ∈ next, ∀ line ∈ node.lines, Text.Evenly line) :
    needsGap (next.map Node.withReturns) = needsGap next := by
  match next with
  | none | some (.code _) | some (.marker ..) => rfl
  | some (.text raw) => exact congrArg not (startsBlank_withReturns (hends _ rfl))

/-- The marker after a block gets its carriage returns from the block. -/
theorem markerAfter_withReturns {block : CodeBlock} {marker : Marker} {next : Option Node}
    (hnewline : block.withReturns.newline = Text.withReturns block.newline)
    (hmarker : marker.WellFormed)
    (hnext : ∀ node ∈ next, ∀ line ∈ node.lines, Text.Evenly line) :
    markerAfter block.withReturns marker (next.map Node.withReturns) =
      (markerAfter block marker next).withReturns := by
  have hite (b : Bool) (s : List Char) :
      Text.withReturns (if b then s else []) = if b then Text.withReturns s else [] := by
    cases b <;> rfl
  have hended (b : Bool) (s : List Char) :
      Text.withReturns (if b then [] else s) = if b then [] else Text.withReturns s := by
    cases b <;> rfl
  rw [markerAfter, markerAfter, Node.withReturns_marker, block.endsLine_withReturns,
    needsGap_withReturns hnext, hnewline]
  simp only [Text.withReturns_append, Text.withReturns_of_not_mem hmarker.noFeed, hite, hended]

/-- Markers are put after the same blocks, with the carriage returns of the text. -/
theorem annotateNodes_withReturns {nodes : List Node} {markers : List Marker}
    (hlines : Text.AreLines (nodes.flatMap Node.lines))
    (hreturn : ∀ line ∈ nodes.flatMap Node.lines, '\r' ∉ line)
    (hclosed : ∀ block ∈ checked settings nodes, block.isClosed = true)
    (hmarkers : ∀ marker ∈ markers, marker.WellFormed) :
    annotateNodes settings.checks markers (nodes.map Node.withReturns) =
      (annotateNodes settings.checks markers nodes).map Node.withReturns := by
  induction nodes generalizing markers with
  | nil => cases markers <;> rfl
  | cons node rest ih =>
    rw [List.flatMap_cons, Text.areLines_append] at hlines
    rw [List.flatMap_cons, List.forall_mem_append] at hreturn
    obtain ⟨hnode, -, hrest⟩ := hlines
    have hclosedRest : ∀ block ∈ checked settings rest, block.isClosed = true :=
      fun block hmem => hclosed block (mem_checked_cons hmem)
    cases node with
    | text raw =>
      rw [List.map_cons, Node.withReturns_text, annotateNodes_text, annotateNodes_text,
        ih hrest hreturn.2 hclosedRest hmarkers, List.map_cons, Node.withReturns_text]
    | marker marker raw =>
      rw [List.map_cons, Node.withReturns_marker, annotateNodes_marker, annotateNodes_marker,
        ih hrest hreturn.2 hclosedRest hmarkers, List.map_cons, Node.withReturns_marker]
    | code block =>
      rw [List.map_cons, Node.withReturns_code]
      by_cases hmarked : ∃ marker more, markers = marker :: more ∧ settings.checks block = true
      · obtain ⟨marker, more, rfl, hchecks⟩ := hmarked
        rw [checked_code, if_pos hchecks, List.forall_mem_cons] at hclosed
        rw [List.forall_mem_cons] at hmarkers
        have hevenly := evenly_of_not_mem hrest hreturn.2
        have hopening : block.opening ∈ block.lines := List.mem_cons_self
        have hnext : ∀ node ∈ rest.head?, ∀ line ∈ node.lines, Text.Evenly line :=
          fun node hhead line hmem => hevenly line
            (List.mem_flatMap.mpr ⟨node, List.mem_of_mem_head? hhead, hmem⟩)
        have hnewline := CodeBlock.newline_withReturns (hnode.isLine _ hopening)
          (CodeBlock.isTerminated_opening hnode hclosed.1) (hreturn.1 _ hopening)
        rw [annotateNodes, annotateNodes, Settings.checks_withReturns, if_pos hchecks,
          if_pos hchecks, ih hrest hreturn.2 hclosed.2 hmarkers.2, List.head?_map,
          markerAfter_withReturns hnewline hmarkers.1 hnext]
        rfl
      · have hnone : ∀ marker more, markers = marker :: more → settings.checks block = true →
            False :=
          fun marker more hmarkers hchecks => hmarked ⟨marker, more, hmarkers, hchecks⟩
        have hsame : annotateNodes settings.checks markers
            (.code block.withReturns :: rest.map Node.withReturns) = _ := annotateNodes_code hnone
        rw [annotateNodes_code hnone, hsame, ih hrest hreturn.2 hclosedRest hmarkers,
          List.map_cons, Node.withReturns_code]

theorem unmarked_withReturns (nodes : List Node) :
    unmarked (nodes.map Node.withReturns) = (unmarked nodes).map Node.withReturns := by
  induction nodes with
  | nil => rfl
  | cons node rest ih => cases node <;> simp [ih]

theorem kept_withReturns (doc : Document) :
    settings.kept doc.withReturns = (settings.kept doc).withReturns := by
  unfold Settings.kept
  split
  · rw [withReturns, withReturns, strip, strip, Document.mk.injEq]
    exact unmarked_withReturns doc.nodes
  · rfl

/-- Stripping leaves lines of the document. -/
theorem lines_kept_subset (settings : Settings) (doc : Document) :
    (settings.kept doc).lines ⊆ doc.lines := by
  rw [lines, nodes_kept]
  split
  · exact (List.filter_sublist.flatMap Node.lines).subset
  · exact List.Subset.refl _

theorem checked_withReturns (nodes : List Node) :
    checked settings (nodes.map Node.withReturns) =
      (checked settings nodes).map CodeBlock.withReturns := by
  induction nodes with
  | nil => rfl
  | cons node rest ih =>
    cases node with
    | text raw | marker marker raw => exact ih
    | code block =>
      rw [List.map_cons, Node.withReturns_code, checked_code, checked_code,
        Settings.checks_withReturns, ih]
      split <;> rfl

/-- The lines in a checked block are lines of the document. -/
theorem mem_lines_of_mem_checked {nodes : List Node} {block : CodeBlock} {line : List Char}
    (hmem : block ∈ checked settings nodes) (hline : line ∈ block.body) :
    line ∈ nodes.flatMap Node.lines := by
  obtain ⟨hblock, -⟩ := List.mem_filter.mp hmem
  obtain ⟨node, hnode, hcode⟩ := List.mem_filterMap.mp hblock
  refine List.mem_flatMap.mpr ⟨node, hnode, ?_⟩
  cases node with
  | text raw | marker marker raw => cases hcode
  | code found =>
    cases hcode
    simp [CodeBlock.lines, hline]

end Document

namespace Evaluator

open Document

variable {m : Type → Type} {V : Type} [Monad m] [LawfulMonad m] (lang : Evaluator m V)

/-- Checking runs the checked blocks; their results are the report, and the markers are told by
them. -/
theorem checkDocument_eq (settings : Settings) (doc : Document) :
    lang.checkDocument settings doc =
      (fun results => (⟨results⟩, (settings.kept doc).annotate settings.checks
        (results.map (·.verdict.marker)))) <$>
          (checked settings doc.nodes).mapM lang.checkBlock := by
  rw [← checked_kept, ← bind_pure_comp]
  rfl

/-- The blocks with carriage returns have the same results. -/
theorem mapM_checkBlock_withReturns {blocks : List CodeBlock}
    (hends : ∀ block ∈ blocks, ∀ line ∈ block.body, Text.Evenly line) :
    (blocks.map CodeBlock.withReturns).mapM lang.checkBlock = blocks.mapM lang.checkBlock := by
  induction blocks with
  | nil => rfl
  | cons block rest ih =>
    rw [List.forall_mem_cons] at hends
    have hblock : lang.checkBlock block.withReturns = lang.checkBlock block := by
      rw [checkBlock, checkBlock, CodeBlock.value_withReturns hends.1]
      rfl
    rw [List.map_cons, List.mapM_cons, List.mapM_cons, hblock, ih hends.2]

/-- **Line ends.** If every checked block of a text without carriage returns is closed, then with a
carriage return before each line feed the text is checked to the same report, and it is rendered to
the same text with these carriage returns. -/
theorem checkDocument_withReturns {settings : Settings} {source : String}
    (hreturn : '\r' ∉ source.toList)
    (hclosed : ∀ block ∈ checked settings (parse source).nodes, block.isClosed = true) :
    (fun found => (found.1, found.2.render)) <$> lang.checkDocument settings
        (parse (String.ofList (Text.withReturns source.toList))) =
      (fun found => (found.1, String.ofList (Text.withReturns found.2.render.toList))) <$>
        lang.checkDocument settings (parse source) := by
  have hdoc := wellFormed_parse source
  have hlines := not_mem_of_mem_lines hreturn
  have hends := evenly_of_not_mem hdoc.lines hlines
  have hbodies : ∀ block ∈ checked settings (parse source).nodes, ∀ line ∈ block.body,
      Text.Evenly line :=
    fun block hmem line hline => hends line (mem_lines_of_mem_checked hmem hline)
  have hkept : ∀ line ∈ (settings.kept (parse source)).lines, '\r' ∉ line :=
    fun line hmem => hlines line (lines_kept_subset settings (parse source) hmem)
  have hrender (results : List BlockResult) :
      ((settings.kept (parse source)).withReturns.annotate settings.checks
        (results.map (·.verdict.marker))).render =
      String.ofList (Text.withReturns ((settings.kept (parse source)).annotate settings.checks
        (results.map (·.verdict.marker))).render.toList) := by
    rw [← render_withReturns, annotate, nodes_withReturns, annotateNodes_withReturns
      (hdoc.areLines_kept settings) hkept]
    · rfl
    · rwa [checked_kept]
    · intro marker hmem
      obtain ⟨result, -, rfl⟩ := List.mem_map.mp hmem
      exact result.verdict.wellFormed_marker
  rw [parse_withReturns hreturn, checkDocument_eq, checkDocument_eq, kept_withReturns,
    nodes_withReturns, checked_withReturns, lang.mapM_checkBlock_withReturns hbodies,
    Functor.map_map, Functor.map_map]
  exact congrArg (· <$> _) (funext fun results => congrArg (Prod.mk _) (hrender results))

/-- A document with text around a block gets its marker with the carriage returns of the text. -/
theorem checkDocument_withReturns_text_around :
    '\r' ∉ "a\n~~~js\n> 'a'\n'b'\n~~~\nb".toList ∧
    (∀ block ∈ checked ⟨["js"], true⟩ (parse "a\n~~~js\n> 'a'\n'b'\n~~~\nb").nodes,
      block.isClosed = true) ∧
    (((fun found => (found.1, found.2.render)) <$>
        (Script.evaluator Script.amplyManyLevels).checkDocument ⟨["js"], true⟩ (parse (String.ofList
          (Text.withReturns "a\n~~~js\n> 'a'\n'b'\n~~~\nb".toList)))).run
      Script.Session.new).map Prod.fst =
    some (⟨[⟨2, .fail (.mismatch "'a'" "'b'" "'a'")⟩]⟩,
      "a\r\n~~~js\r\n> 'a'\r\n'b'\r\n~~~\r\n\r\n" ++
        "❌ \x60Error: 'a' => expected 'b', but got 'a'\x60\r\n\r\nb") := by
  have hreturn : '\r' ∉ "a\n~~~js\n> 'a'\n'b'\n~~~\nb".toList := by decide +kernel
  have hclosed : ∀ block ∈ checked ⟨["js"], true⟩
      (parse "a\n~~~js\n> 'a'\n'b'\n~~~\nb").nodes, block.isClosed = true := by
    decide +kernel
  refine ⟨hreturn, hclosed, ?_⟩
  rw [checkDocument_withReturns (Script.evaluator Script.amplyManyLevels) hreturn hclosed]
  decide +kernel

end Evaluator

end Doctest
