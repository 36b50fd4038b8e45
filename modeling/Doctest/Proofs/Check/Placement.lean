import Doctest.Proofs.Check.Round
import Doctest.Proofs.Document.Insertion

/-!
# Where verdicts are put

Checking a document runs the values of its checked blocks one after the other. Each verdict becomes
the marker directly after its block, whatever other nodes stand around it, and the report gives it
with the line of the opening fence in the text that was read.
-/

namespace Doctest

namespace Document

variable (settings : Settings)

/-- The positions of the checked blocks among the nodes of a document. -/
def checkedPlaces (doc : Document) : List Nat :=
  (doc.placedCodeBlocks.filter fun place => settings.checks place.2).map Prod.fst

/-- How many of the first nodes are checked blocks. -/
def checkedBefore (nodes : List Node) (index : Nat) : Nat :=
  (checked settings (nodes.take index)).length

/-- The document with markers put in at positions, the last of them first; none if at one of the
positions no code block is. -/
def insertMarkers? (doc : Document) (places : List (Nat × Marker)) : Option Document :=
  places.foldrM (fun place doc => doc.insertMarker? place.1 place.2) doc

/-- Nodes with new markers. Each node stands as far behind its old position as there are checked
blocks before it, the marker of a checked block directly after it, and nothing else. -/
structure Annotated (markers : List Marker) (before after : List Node) : Prop where
  length : after.length = before.length + (checked settings before).length
  kept : ∀ index < before.length,
    after[index + checkedBefore settings before index]? = before[index]?
  marked : ∀ index block, before[index]? = some (.code block) → settings.checks block = true →
    ∃ marker, markers[checkedBefore settings before index]? = some marker ∧
      after[index + checkedBefore settings before index + 1]? =
        some (markerAfter block marker before[index + 1]?)

variable {settings}

theorem checked_cons (node : Node) (rest : List Node) :
    checked settings (node :: rest) = checked settings [node] ++ checked settings rest := by
  cases node with
  | text raw => rfl
  | marker marker raw => rfl
  | code block =>
    rw [checked_code, checked_code]
    split <;> rfl

@[simp] theorem checkedBefore_zero (nodes : List Node) : checkedBefore settings nodes 0 = 0 := rfl

@[simp] theorem checkedBefore_succ (node : Node) (rest : List Node) (index : Nat) :
    checkedBefore settings (node :: rest) (index + 1) =
      (checked settings [node]).length + checkedBefore settings rest index := by
  rw [checkedBefore, List.take_succ_cons, checked_cons, List.length_append, checkedBefore]

/-- A node that is not checked stays in front of nodes with new markers. -/
theorem Annotated.cons {markers : List Marker} {before after : List Node}
    (h : Annotated settings markers before after) {node : Node}
    (hnode : checked settings [node] = []) :
    Annotated settings markers (node :: before) (node :: after) where
  length := by
    rw [checked_cons, hnode, List.nil_append, List.length_cons, List.length_cons, h.length]
    omega
  kept := by
    intro index hindex
    cases index with
    | zero => rfl
    | succ index =>
      have hshift : index + 1 + checkedBefore settings before index =
          index + checkedBefore settings before index + 1 := by omega
      rw [checkedBefore_succ, hnode, List.length_nil, Nat.zero_add, hshift,
        List.getElem?_cons_succ, List.getElem?_cons_succ]
      exact h.kept index (by simpa using hindex)
  marked := by
    intro index block hblock hchecks
    cases index with
    | zero =>
      obtain rfl : node = .code block := by simpa using hblock
      simp [hchecks] at hnode
    | succ index =>
      have hshift : index + 1 + checkedBefore settings before index + 1 =
          index + checkedBefore settings before index + 1 + 1 := by omega
      rw [checkedBefore_succ, hnode, List.length_nil, Nat.zero_add, hshift,
        List.getElem?_cons_succ, List.getElem?_cons_succ]
      exact h.marked index block hblock hchecks

/-- A checked block with its marker stays in front of nodes with new markers. -/
theorem Annotated.cons_checked {markers : List Marker} {before after : List Node}
    (h : Annotated settings markers before after) {block : CodeBlock}
    (hchecks : settings.checks block = true) (marker : Marker) :
    Annotated settings (marker :: markers) (.code block :: before)
      (.code block :: markerAfter block marker before.head? :: after) where
  length := by
    rw [checked_code, if_pos hchecks, List.length_cons, List.length_cons, List.length_cons,
      List.length_cons, h.length]
    omega
  kept := by
    intro index hindex
    cases index with
    | zero => rfl
    | succ index =>
      have hshift : index + 1 + (1 + checkedBefore settings before index) =
          index + checkedBefore settings before index + 1 + 1 := by omega
      rw [checkedBefore_succ, checked_code, if_pos hchecks, checked_nil, List.length_singleton,
        hshift, List.getElem?_cons_succ, List.getElem?_cons_succ, List.getElem?_cons_succ]
      exact h.kept index (by simpa using hindex)
  marked := by
    intro index found hfound hfoundChecks
    cases index with
    | zero =>
      obtain rfl : block = found := by simpa using hfound
      exact ⟨marker, rfl, by simp [List.head?_eq_getElem?]⟩
    | succ index =>
      have hshift : index + 1 + (1 + checkedBefore settings before index) + 1 =
          index + checkedBefore settings before index + 1 + 1 + 1 := by omega
      obtain ⟨other, hother, hafter⟩ := h.marked index found hfound hfoundChecks
      refine ⟨other, ?_, ?_⟩
      · rw [checkedBefore_succ, checked_code, if_pos hchecks, checked_nil, List.length_singleton,
          Nat.add_comm 1, List.getElem?_cons_succ, hother]
      · rw [checkedBefore_succ, checked_code, if_pos hchecks, checked_nil, List.length_singleton,
          hshift, List.getElem?_cons_succ, List.getElem?_cons_succ, hafter,
          List.getElem?_cons_succ]

/-- Every checked block of an annotated document has its marker, and all nodes are there. -/
theorem annotated_annotateNodes {markers : List Marker} {nodes : List Node}
    (hlength : markers.length = (checked settings nodes).length) :
    Annotated settings markers nodes (annotateNodes settings.checks markers nodes) := by
  induction nodes generalizing markers with
  | nil => exact ⟨by simp [annotateNodes], by simp, by simp⟩
  | cons node rest ih =>
    cases node with
    | text raw =>
      rw [annotateNodes_text]
      exact (ih hlength).cons rfl
    | marker marker raw =>
      rw [annotateNodes_marker]
      exact (ih hlength).cons rfl
    | code block =>
      by_cases hchecks : settings.checks block = true
      · rw [checked_code, if_pos hchecks, List.length_cons] at hlength
        obtain ⟨marker, more, rfl⟩ := List.exists_cons_of_length_eq_add_one hlength
        rw [annotateNodes, if_pos hchecks]
        exact (ih (by simpa using hlength)).cons_checked hchecks marker
      · rw [checked_code, if_neg hchecks] at hlength
        rw [annotateNodes_code fun _ _ _ h => hchecks h]
        exact (ih hlength).cons (by simp [hchecks])

/-- The node that is at the front stays there. -/
theorem head?_annotateNodes (markers : List Marker) (nodes : List Node) :
    (annotateNodes settings.checks markers nodes).head? = nodes.head? := by
  fun_cases annotateNodes settings.checks markers nodes <;> rfl

/-- The positions of the checked blocks among nodes that begin at a position. -/
def checkedPlacesFrom (settings : Settings) (start : Nat) (nodes : List Node) : List Nat :=
  (((nodes.zipIdx start).filterMap fun (node, index) => node.code?.map (index, ·)).filter
    fun place => settings.checks place.2).map Prod.fst

theorem checkedPlacesFrom_cons (start : Nat) (node : Node) (rest : List Node) :
    checkedPlacesFrom settings start (node :: rest) =
      (checked settings [node]).map (fun _ => start) ++
        checkedPlacesFrom settings (start + 1) rest := by
  cases node with
  | text raw => rfl
  | marker marker raw => rfl
  | code block =>
    by_cases hchecks : settings.checks block = true <;>
      simp [checkedPlacesFrom, List.zipIdx_cons, Node.code?, hchecks]

/-- Markers that are put in from the last to the first come to stand where they belong: what is put
in behind a position does not move it. -/
theorem foldrM_insertAt?_append {markers : List Marker} (front : List Node) {nodes : List Node}
    (hlength : markers.length = (checked settings nodes).length) :
    ((checkedPlacesFrom settings front.length nodes).zip markers).foldrM
        (fun place found => insertAt? place.2 place.1 found) (front ++ nodes) =
      some (front ++ annotateNodes settings.checks markers nodes) := by
  -- The nodes in front are never looked at, so each step moves one node over to them.
  induction nodes generalizing front markers with
  | nil => simp [checkedPlacesFrom, annotateNodes]
  | cons node rest ih =>
    cases node with
    | text raw =>
      have hrest := ih (front ++ [.text raw]) hlength
      rw [annotateNodes_text, checkedPlacesFrom_cons]
      simpa using hrest
    | marker marker raw =>
      have hrest := ih (front ++ [.marker marker raw]) hlength
      rw [annotateNodes_marker, checkedPlacesFrom_cons]
      simpa using hrest
    | code block =>
      by_cases hchecks : settings.checks block = true
      · rw [checked_code, if_pos hchecks, List.length_cons] at hlength
        obtain ⟨marker, more, rfl⟩ := List.exists_cons_of_length_eq_add_one hlength
        have hrest := ih (front ++ [.code block]) (Nat.succ.inj hlength)
        have hinsert := insertAt?_append marker front block
          (annotateNodes settings.checks more rest)
        rw [head?_annotateNodes] at hinsert
        rw [annotateNodes, if_pos hchecks, checkedPlacesFrom_cons, checked_code, if_pos hchecks,
          checked_nil, List.map_singleton, List.singleton_append, List.zip_cons_cons,
          List.foldrM_cons]
        simp only [List.append_assoc, List.singleton_append, List.length_append,
          List.length_singleton] at hrest
        rw [hrest]
        exact hinsert
      · rw [checked_code, if_neg hchecks] at hlength
        have hrest := ih (front ++ [.code block]) hlength
        rw [annotateNodes_code fun _ _ _ h => hchecks h, checkedPlacesFrom_cons]
        simpa [hchecks] using hrest

/-- Putting markers into a document puts them among its nodes. -/
theorem insertMarkers?_eq (doc : Document) (places : List (Nat × Marker)) :
    doc.insertMarkers? places =
      (places.foldrM (fun place found => insertAt? place.2 place.1 found) doc.nodes).map mk := by
  induction places with
  | nil => rfl
  | cons place places ih =>
    rw [insertMarkers?, List.foldrM_cons, ← insertMarkers?, ih, List.foldrM_cons]
    cases places.foldrM (fun place found => insertAt? place.2 place.1 found) doc.nodes <;> rfl

/-- Putting markers in at the positions of the checked blocks, the last first, annotates. -/
theorem insertMarkers?_checkedPlaces {doc : Document} {markers : List Marker}
    (hlength : markers.length = (checked settings doc.nodes).length) :
    doc.insertMarkers? ((doc.checkedPlaces settings).zip markers) =
      some (doc.annotate settings.checks markers) := by
  rw [insertMarkers?_eq]
  exact congrArg (Option.map mk) (foldrM_insertAt?_append [] hlength)

/-- The number of a block counts the lines up to its opening fence. -/
theorem Numbered.getElem?_line {number : Nat} {nodes : List Node} (h : Numbered number nodes)
    {block : CodeBlock} (hmem : .code block ∈ nodes) :
    number ≤ block.line ∧
      (nodes.flatMap Node.lines)[block.line - number]? = some block.opening := by
  obtain ⟨before, after, rfl⟩ := List.mem_iff_append.mp hmem
  obtain ⟨-, hline, -⟩ := numbered_append.mp h
  have hblock : block.line = number + (before.flatMap Node.lines).length := hline block rfl
  rw [hblock, Nat.add_sub_cancel_left, List.flatMap_append]
  refine ⟨Nat.le_add_right _ _, ?_⟩
  rw [List.getElem?_append_right (Nat.le_refl _), Nat.sub_self]
  rfl

/-- The blocks of numbered nodes come in the order of their lines. -/
theorem Numbered.pairwise_line {number : Nat} {nodes : List Node} (h : Numbered number nodes) :
    (nodes.filterMap Node.code?).Pairwise fun first second => first.line < second.line := by
  induction nodes generalizing number with
  | nil => exact .nil
  | cons node rest ih =>
    cases node with
    | text | marker => exact ih h.2
    | code block =>
      obtain ⟨hblock, hrest⟩ := h
      refine .cons (fun other hmem => ?_) (ih hrest)
      have hother : number + (Node.code block).lines.length ≤ other.line := by
        obtain ⟨node, hnode, hcode⟩ := List.mem_filterMap.mp hmem
        cases node with
        | text | marker => cases hcode
        | code found =>
          cases hcode
          exact (hrest.getElem?_line hnode).1
      have hline : block.line = number := hblock block rfl
      simp only [Node.lines_code, CodeBlock.lines, List.cons_append, List.length_cons] at hother
      omega

end Document

namespace Report

/-- Every block that was checked either passed or failed. -/
theorem passed_add_failed (report : Report) : report.passed + report.failed = report.total := by
  have hcount := List.length_eq_countP_add_countP (fun block => block.verdict.isPass)
    (l := report.blocks)
  rw [passed, failed, failures, total, ← List.countP_eq_length_filter]
  simpa using hcount.symm

theorem isSuccess_iff (report : Report) :
    report.isSuccess = true ↔ ∀ block ∈ report.blocks, block.verdict = .pass := by
  have hpass (verdict : Verdict) : verdict.isPass = true ↔ verdict = .pass := by
    cases verdict <;> simp [Verdict.isPass]
  simp [isSuccess, failures, hpass]

end Report

open Document in
/-- What checking a text comes to when these are the verdicts on its checked blocks. -/
structure CheckOutcome (settings : Settings) (source : String) (verdicts : List Verdict)
    (report : Report) (doc : Document) : Prop where
  length : verdicts.length = (checked settings (parse source).nodes).length
  /-- The markers are put in at the positions that the blocks had before, the last first. -/
  inserted : (settings.kept (parse source)).insertMarkers?
    (((settings.kept (parse source)).checkedPlaces settings).zip (verdicts.map Verdict.marker)) =
      some doc
  annotated : Annotated settings (verdicts.map Verdict.marker)
    (settings.kept (parse source)).nodes doc.nodes
  reported : report = .ofVerdicts (checked settings (parse source).nodes) verdicts
  /-- The line of a block is that of its opening fence in the text. -/
  lines : ∀ block ∈ checked settings (parse source).nodes,
    1 ≤ block.line ∧ (Text.lines source.toList)[block.line - 1]? = some block.opening
  total : report.total = (checked settings (parse source).nodes).length
  counts : report.passed + report.failed = report.total
  success : report.isSuccess = true ↔ ∀ verdict ∈ verdicts, verdict = .pass

open Document in
/-- With a verdict for each checked block, everything is where it belongs. -/
theorem checkOutcome_annotate {settings : Settings} {source : String} {verdicts : List Verdict}
    (hlength : verdicts.length = (checked settings (parse source).nodes).length) :
    CheckOutcome settings source verdicts
      (.ofVerdicts (checked settings (parse source).nodes) verdicts)
      ((settings.kept (parse source)).annotate settings.checks (verdicts.map Verdict.marker)) := by
  have hverdicts := Report.map_verdict_ofVerdicts hlength
  have hmarkers : (verdicts.map Verdict.marker).length =
      (checked settings (settings.kept (parse source)).nodes).length := by
    rw [List.length_map, hlength, checked_kept]
  constructor
  case length => exact hlength
  case inserted => exact insertMarkers?_checkedPlaces hmarkers
  case annotated => exact annotated_annotateNodes hmarkers
  case reported => rfl
  case lines =>
    intro block hmem
    have hnode : Node.code block ∈ (parse source).nodes := by
      obtain ⟨node, hnode, hcode⟩ := List.mem_filterMap.mp (List.mem_of_mem_filter hmem)
      cases node <;> simp_all [Node.code?]
    have hline := (wellFormed_parse source).numbered.getElem?_line hnode
    rwa [← Document.lines, lines_parse] at hline
  case total => rw [Report.total, ← List.length_map BlockResult.verdict, hverdicts, hlength]
  case counts => exact Report.passed_add_failed _
  case success =>
    rw [Report.isSuccess_iff]
    conv_rhs => rw [← hverdicts]
    simp only [List.forall_mem_map]

open Document in
/-- A report has the checked blocks in the order of their lines. -/
theorem Evaluator.lines_of_checkDocument {σ V : Type} {lang : Evaluator (StateT σ Option) V}
    {settings : Settings} {start last : σ} {source : String} {report : Report} {doc : Document}
    (h : (lang.checkDocument settings (parse source)).run start = some ((report, doc), last)) :
    report.blocks.map BlockResult.line =
        (checked settings (parse source).nodes).map CodeBlock.line ∧
      (report.blocks.map BlockResult.line).Pairwise (· < ·) := by
  have hlines : report.blocks.map BlockResult.line =
      (checked settings (parse source).nodes).map CodeBlock.line := by
    rw [run_checkDocument] at h
    obtain ⟨⟨verdicts, after⟩, hrun, hfound⟩ := Option.map_eq_some_iff.mp h
    have hlength := (runInTurn_iff.mpr hrun).length
    rw [List.length_map] at hlength
    cases hfound
    exact Report.map_line_ofVerdicts hlength
  refine ⟨hlines, ?_⟩
  rw [hlines, List.pairwise_map]
  exact (wellFormed_parse source).numbered.pairwise_line.filter _

open Document in
/-- **Placement of verdicts.** Checking a text comes to an end exactly if the values of its checked
blocks, run in turn, do. The last state is then the same, and each of the verdicts is where it
belongs in the report and in the document. -/
theorem Evaluator.checkDocument_run_iff {σ V : Type} (lang : Evaluator (StateT σ Option) V)
    (settings : Settings) (start last : σ) (source : String) (report : Report) (doc : Document) :
    (lang.checkDocument settings (parse source)).run start = some ((report, doc), last) ↔
      ∃ verdicts, lang.RunInTurn start ((checked settings (parse source).nodes).map CodeBlock.value)
          verdicts last ∧ CheckOutcome settings source verdicts report doc := by
  rw [run_checkDocument, Option.map_eq_some_iff]
  constructor
  · rintro ⟨⟨verdicts, after⟩, hrun, hfound⟩
    cases hfound
    have hturn := runInTurn_iff.mpr hrun
    have hlength := hturn.length
    rw [List.length_map] at hlength
    exact ⟨verdicts, hturn, checkOutcome_annotate hlength⟩
  · rintro ⟨verdicts, hturn, houtcome⟩
    have hdoc := houtcome.inserted.symm.trans (checkOutcome_annotate houtcome.length).inserted
    refine ⟨(verdicts, last), runInTurn_iff.mp hturn, ?_⟩
    rw [houtcome.reported, Option.some.inj hdoc]

end Doctest
