import Doctest.Proofs.Check.Annotation
import Doctest.Script.Evaluator

/-!
# Rounds

A round reads a text, checks it from a fresh state and renders it. The verdicts depend on the values
of the checked blocks only, and the text on the verdicts.
-/

namespace Doctest

/-- What a round gives: the verdicts on the checked blocks, and the text with their markers. -/
structure Round where
  verdicts : List Verdict
  text : String
  deriving DecidableEq

/-- A verdict is read from the line of its marker. -/
theorem Verdict.wellFormed_marker (verdict : Verdict) : verdict.marker.WellFormed := by
  cases verdict with
  | pass => exact Marker.wellFormed_pass
  | fail fault => exact Marker.wellFormed_fail fault.message

/-- The document that the blocks are taken from: without its markers if they are stripped. -/
def Settings.kept (settings : Settings) (doc : Document) : Document :=
  if settings.strips then doc.strip else doc

namespace Document

theorem nodes_kept (settings : Settings) (doc : Document) :
    (settings.kept doc).nodes = if settings.strips then unmarked doc.nodes else doc.nodes := by
  unfold Settings.kept
  split <;> rfl

/-- Stripping leaves the checked blocks. -/
@[simp] theorem checked_unmarked (settings : Settings) (nodes : List Node) :
    checked settings (unmarked nodes) = checked settings nodes := by
  induction nodes with
  | nil => rfl
  | cons node rest ih => cases node <;> simp [ih]

@[simp] theorem checked_kept (settings : Settings) (doc : Document) :
    checked settings (settings.kept doc).nodes = checked settings doc.nodes := by
  rw [nodes_kept]
  split <;> simp

@[simp] theorem unmarked_kept (settings : Settings) (doc : Document) :
    unmarked (settings.kept doc).nodes = unmarked doc.nodes := by
  rw [nodes_kept]
  split <;> simp

/-- The document that is checked has the lines of a text. -/
theorem WellFormed.areLines_kept {doc : Document} (hdoc : doc.WellFormed) (settings : Settings) :
    Text.AreLines (settings.kept doc).lines := by
  rw [Document.lines, nodes_kept]
  split
  · exact areLines_unmarked hdoc.lines
  · exact hdoc.lines

/-- The document that is checked is arranged as it is read. -/
theorem WellFormed.arranged_kept {doc : Document} (hdoc : doc.WellFormed) (settings : Settings) :
    Arranged false (settings.kept doc).nodes := by
  rw [nodes_kept]
  split
  · exact arranged_unmarked hdoc.arranged
  · exact hdoc.arranged

end Document

namespace Report

/-- The report on blocks with these verdicts: each with the line of its opening fence. -/
def ofVerdicts (blocks : List CodeBlock) (verdicts : List Verdict) : Report :=
  ⟨(blocks.zip verdicts).map fun found => ⟨found.1.line, found.2⟩⟩

/-- With a verdict for each block, the report has these verdicts. -/
theorem map_verdict_ofVerdicts {blocks : List CodeBlock} {verdicts : List Verdict}
    (hlength : verdicts.length = blocks.length) :
    (ofVerdicts blocks verdicts).blocks.map BlockResult.verdict = verdicts := by
  rw [ofVerdicts, List.map_map]
  exact List.map_snd_zip (Nat.le_of_eq hlength)

/-- With a verdict for each block, the report has the lines of these blocks. -/
theorem map_line_ofVerdicts {blocks : List CodeBlock} {verdicts : List Verdict}
    (hlength : verdicts.length = blocks.length) :
    (ofVerdicts blocks verdicts).blocks.map BlockResult.line = blocks.map CodeBlock.line := by
  have hblocks : (blocks.zip verdicts).map Prod.fst = blocks :=
    List.map_fst_zip (Nat.le_of_eq hlength.symm)
  conv_rhs => rw [← hblocks]
  rw [ofVerdicts, List.map_map, List.map_map]
  rfl

end Report

namespace Evaluator

/-- The results of blocks are the verdicts on their values, each with the line of its block. -/
theorem mapM_checkBlock {m : Type → Type} {V : Type} [Monad m] [LawfulMonad m]
    (lang : Evaluator m V) (blocks : List CodeBlock) :
    blocks.mapM lang.checkBlock = (fun verdicts => (Report.ofVerdicts blocks verdicts).blocks) <$>
      (blocks.map CodeBlock.value).mapM lang.runBlock := by
  induction blocks with
  | nil => simp [Report.ofVerdicts]
  | cons block blocks ih => simp [checkBlock, ih, Report.ofVerdicts]

variable {σ V : Type} (lang : Evaluator (StateT σ Option) V)

/-- Blocks with these values run in turn, each from the state in which the one before it ended, and
these are the verdicts on them. -/
inductive RunInTurn : σ → List String → List Verdict → σ → Prop
  | done (state : σ) : RunInTurn state [] [] state
  | run {start next last : σ} {value : String} {values : List String} {verdict : Verdict}
      {verdicts : List Verdict} : (lang.runBlock value).run start = some (verdict, next) →
      RunInTurn next values verdicts last →
      RunInTurn start (value :: values) (verdict :: verdicts) last

variable {lang}

theorem RunInTurn.length {start last : σ} {values : List String} {verdicts : List Verdict}
    (h : lang.RunInTurn start values verdicts last) : verdicts.length = values.length := by
  induction h with
  | done state => rfl
  | run hrun hrest ih => rw [List.length_cons, List.length_cons, ih]

/-- Running one block after the other comes to an end exactly if the blocks run in turn. -/
theorem runInTurn_iff {start last : σ} {values : List String} {verdicts : List Verdict} :
    lang.RunInTurn start values verdicts last ↔
      (values.mapM lang.runBlock).run start = some (verdicts, last) := by
  constructor
  · intro h
    induction h with
    | done state => rfl
    | run hrun hrest ih => simp [List.mapM_cons, hrun, ih]
  · intro h
    induction values generalizing start verdicts with
    | nil =>
      cases h
      exact RunInTurn.done _
    | cons value values ih =>
      simp only [List.mapM_cons, StateT.run_bind, Option.bind_eq_bind,
        Option.bind_eq_some_iff] at h
      obtain ⟨⟨verdict, next⟩, hrun, ⟨more, after⟩, hmore, hfound⟩ := h
      cases hfound
      exact .run hrun (ih hmore)

variable (lang)

open Document in
/-- Checking runs the values of the checked blocks; all else follows from the verdicts. -/
theorem run_checkDocument (settings : Settings) (start : σ) (source : String) :
    (lang.checkDocument settings (parse source)).run start =
      ((((checked settings (parse source).nodes).map CodeBlock.value).mapM
        lang.runBlock).run start).map fun found =>
          ((.ofVerdicts (checked settings (parse source).nodes) found.1,
            (settings.kept (parse source)).annotate settings.checks
              (found.1.map Verdict.marker)), found.2) := by
  rw [checkDocument]
  change (((checked settings (settings.kept (parse source)).nodes).mapM
    lang.checkBlock >>= _).run start) = _
  rw [checked_kept, mapM_checkBlock, StateT.run_bind, StateT.run_map]
  cases hrun : (((checked settings (parse source).nodes).map CodeBlock.value).mapM
      lang.runBlock).run start with
  | none => rfl
  | some found =>
    have hlength := (runInTurn_iff.mpr hrun).length
    rw [List.length_map] at hlength
    have hmarkers := congrArg (List.map Verdict.marker) (Report.map_verdict_ofVerdicts hlength)
    rw [List.map_map] at hmarkers
    simp only [Option.map_some, ← hmarkers]
    rfl

/-- A round from a state, if every evaluation in it comes to an end. -/
def round (settings : Settings) (start : σ) (source : String) : Option Round :=
  ((lang.checkDocument settings (.parse source)).run start).map fun result =>
    ⟨result.1.1.blocks.map BlockResult.verdict, result.1.2.render⟩

/-- The verdicts on blocks with these values, run one after the other from a state. -/
def verdicts (start : σ) (values : List String) : Option (List Verdict) :=
  ((values.mapM lang.runBlock).run start).map Prod.fst

/-- There is one verdict for each block. -/
theorem length_verdicts {start : σ} {values : List String} {found : List Verdict}
    (h : lang.verdicts start values = some found) : found.length = values.length := by
  obtain ⟨⟨found, last⟩, hrun, rfl⟩ := Option.map_eq_some_iff.mp h
  exact (runInTurn_iff.mpr hrun).length

/-- A round is the verdicts on the values of the checked blocks, and what they are rendered to. -/
theorem round_eq (settings : Settings) (start : σ) (source : String) :
    lang.round settings start source =
      (lang.verdicts start ((Document.checked settings
        (settings.kept (.parse source)).nodes).map CodeBlock.value)).map fun found =>
          ⟨found, ((settings.kept (.parse source)).annotate settings.checks
            (found.map Verdict.marker)).render⟩ := by
  rw [round, run_checkDocument, verdicts, Document.checked_kept, Option.map_map, Option.map_map]
  refine Option.map_congr fun found hfound => ?_
  have hlength := (runInTurn_iff.mpr hfound).length
  rw [List.length_map] at hlength
  simp only [Function.comp_apply, Report.map_verdict_ofVerdicts hlength]

/-- What a round gives is read to the nodes of the document with its new markers. -/
theorem parse_round {settings : Settings} {start : σ} {source : String} {result : Round}
    (hclosed : ∀ block ∈ Document.checked settings (Document.parse source).nodes,
      block.isClosed = true) (hround : lang.round settings start source = some result) :
    Document.parse result.text = ⟨Document.reread settings 1 (result.verdicts.map Verdict.marker)
      (settings.kept (.parse source)).nodes⟩ := by
  rw [round_eq] at hround
  obtain ⟨found, -, rfl⟩ := Option.map_eq_some_iff.mp hround
  have hdoc := Document.wellFormed_parse source
  refine Document.parse_render_annotate (hdoc.areLines_kept settings) (hdoc.arranged_kept settings)
    ?_ ?_
  · rwa [Document.checked_kept]
  · intro marker hmem
    obtain ⟨verdict, -, rfl⟩ := List.mem_map.mp hmem
    exact verdict.wellFormed_marker

/-- There is one verdict in a round for each checked block. -/
theorem length_verdicts_round {settings : Settings} {start : σ} {source : String} {result : Round}
    (hround : lang.round settings start source = some result) :
    result.verdicts.length = (Document.checked settings (Document.parse source).nodes).length := by
  rw [round_eq] at hround
  obtain ⟨found, hfound, rfl⟩ := Option.map_eq_some_iff.mp hround
  simpa using lang.length_verdicts hfound

/-- **Annotation.** A round in which every checked block is closed keeps the blocks and the lines of
text that were written, and finds only the old and the new markers when its text is read again,
exactly if no text directly after a checked block begins as a marker does. -/
theorem written_parse_round_iff {settings : Settings} {start : σ} {source : String}
    {result : Round}
    (hclosed : ∀ block ∈ Document.checked settings (Document.parse source).nodes,
      block.isClosed = true) (hround : lang.round settings start source = some result) :
    ((Document.parse result.text).strip.written = (Document.parse source).strip.written ↔
        Document.KeepsApart settings (settings.kept (.parse source)).nodes) ∧
      ((Document.parse result.text).markers.length =
          (settings.kept (.parse source)).markers.length +
            (Document.checked settings (Document.parse source).nodes).length ↔
        Document.KeepsApart settings (settings.kept (.parse source)).nodes) := by
  have hread := lang.parse_round hclosed hround
  have hlength : (result.verdicts.map Verdict.marker).length =
      (Document.checked settings (settings.kept (.parse source)).nodes).length := by
    rw [List.length_map, lang.length_verdicts_round hround, Document.checked_kept]
  have hwritten (doc : Document) : doc.strip.written = doc.nodes.flatMap Node.written :=
    Document.written_unmarked doc.nodes
  have hkept : (settings.kept (.parse source)).nodes.flatMap Node.written =
      (Document.parse source).nodes.flatMap Node.written := by
    rw [← Document.written_unmarked, Document.unmarked_kept, Document.written_unmarked]
  rw [hread, hwritten, hwritten, ← hkept, ← Document.mistakes_eq_zero_iff]
  constructor
  · have hcount := Document.length_written_reread 1 hlength
    constructor
    · intro hsame
      rw [hsame] at hcount
      omega
    · intro hnone
      exact Document.written_reread (Document.mistakes_eq_zero_iff.mp hnone)
  · have hcount := Document.length_markers_reread 1 hlength
    rw [Document.checked_kept] at hlength
    rw [Document.markers, Document.markers, hcount, hlength]
    omega

/-- A failing block gets its marker anew, and the text around it is read again as it was. -/
theorem written_parse_round_stripped :
    (∀ block ∈ Document.checked ⟨["js"], true⟩ (Document.parse
      "a\n~~~js\r\n> 'a'\r\n'b'\r\n~~~\n\n✅ old\nb\n").nodes, block.isClosed = true) ∧
    ∃ result, (Script.evaluator Script.amplyManyLevels).round ⟨["js"], true⟩ Script.Session.new
        "a\n~~~js\r\n> 'a'\r\n'b'\r\n~~~\n\n✅ old\nb\n" = some result ∧
      (Document.parse result.text).strip.written = [.line "a\n".toList,
        .block "js".toList "> 'a'\n'b'", .line "b\n".toList] ∧
      (Document.parse result.text).markers.length = 1 := by
  have hclosed : ∀ block ∈ Document.checked ⟨["js"], true⟩ (Document.parse
      "a\n~~~js\r\n> 'a'\r\n'b'\r\n~~~\n\n✅ old\nb\n").nodes, block.isClosed = true := by
    decide +kernel
  obtain ⟨result, hround⟩ : ∃ result, (Script.evaluator Script.amplyManyLevels).round
      ⟨["js"], true⟩ Script.Session.new
      "a\n~~~js\r\n> 'a'\r\n'b'\r\n~~~\n\n✅ old\nb\n" = some result :=
    Option.isSome_iff_exists.mp (by decide +kernel)
  have hapart : Document.KeepsApart ⟨["js"], true⟩ (Settings.kept ⟨["js"], true⟩ (Document.parse
      "a\n~~~js\r\n> 'a'\r\n'b'\r\n~~~\n\n✅ old\nb\n")).nodes :=
    Document.mistakes_eq_zero_iff.mp (by decide +kernel)
  obtain ⟨hwritten, hmarkers⟩ := written_parse_round_iff _ hclosed hround
  exact ⟨hclosed, result, hround, (hwritten.mpr hapart).trans (by decide +kernel),
    (hmarkers.mpr hapart).trans (by decide +kernel)⟩

/-- A line that begins as a marker does is taken for one when it stands directly after a block that
is checked, and stripping loses it. -/
theorem marker_like_line_lost :
    ∃ result, (Script.evaluator Script.amplyManyLevels).round ⟨["js"], true⟩ Script.Session.new
        "\x60\x60\x60js\n> 'a'\n'a'\n\x60\x60\x60\n✅ done\n" = some result ∧
      (∀ block ∈ Document.checked ⟨["js"], true⟩ (Document.parse
        "\x60\x60\x60js\n> 'a'\n'a'\n\x60\x60\x60\n✅ done\n").nodes, block.isClosed = true) ∧
      (Document.parse "\x60\x60\x60js\n> 'a'\n'a'\n\x60\x60\x60\n✅ done\n").strip.written =
        [.block "js".toList "> 'a'\n'a'", .line "✅ done\n".toList] ∧
      (Document.parse result.text).strip.written = [.block "js".toList "> 'a'\n'a'"] ∧
      (Document.parse result.text).markers.length = 2 :=
  ⟨⟨[.pass],
      "\x60\x60\x60js\n> 'a'\n'a'\n\x60\x60\x60\n\n✅ \x60speccheck\x60ed\n\n✅ done\n"⟩,
    by decide +kernel, by decide +kernel, by decide +kernel, by decide +kernel,
    by decide +kernel⟩

end Evaluator

end Doctest
