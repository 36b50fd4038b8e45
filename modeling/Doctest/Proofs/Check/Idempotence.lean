import Doctest.Proofs.Check.Repetition
import Doctest.Proofs.Check.Round

/-!
# Rounds are idempotent

Rounds with and without stripping may follow each other in any order. The verdicts stay the same
throughout, and a round that strips always gives the same text. The invariant of such a history is
`Repeats`, which each round preserves.
-/

namespace Doctest

/-- The settings with markers stripped first, or not. -/
def Settings.stripping (settings : Settings) (strips : Bool) : Settings :=
  { settings with strips := strips }

namespace Document

/-- A document that rounds made of another: it has the same values to check, and without its markers
it is annotated to the same text. -/
structure Repeats (settings : Settings) (source doc : Document) : Prop where
  values : (checked settings doc.nodes).map CodeBlock.value =
    (checked settings source.nodes).map CodeBlock.value
  closed : ∀ block ∈ checked settings doc.nodes, block.isClosed = true
  apart : KeepsApart settings (unmarked doc.nodes)
  rendered : ∀ markers : List Marker, markers.length = (checked settings source.nodes).length →
    (doc.strip.annotate settings.checks markers).render =
      (source.strip.annotate settings.checks markers).render

variable {settings : Settings} {source doc : Document}

theorem keepsApart_stripping (strips : Bool) (nodes : List Node) :
    KeepsApart (settings.stripping strips) nodes ↔ KeepsApart settings nodes := by
  fun_induction KeepsApart settings nodes with
  | case1 => rfl
  | case2 raw rest ih => exact ih
  | case3 marker raw rest ih => exact ih
  | case4 block rest ih => exact and_congr Iff.rfl ih

theorem reread_stripping (strips : Bool) (number : Nat) (markers : List Marker)
    (nodes : List Node) :
    reread (settings.stripping strips) number markers nodes =
      reread settings number markers nodes := by
  fun_induction reread settings number markers nodes with
  | case1 => rfl
  | case2 number markers raw rest ih => rw [reread, ih]
  | case3 number markers marker raw rest ih => rw [reread, ih]
  | case4 number block rest marker markers hchecks ih =>
    have hsame : (settings.stripping strips).checks block = true := hchecks
    simp only [reread, hsame, ih]
  | case5 number block rest markers h ih =>
    rw [reread, ih]
    exact h

/-- It does not matter to repetition whether markers are stripped. -/
theorem repeats_stripping (strips : Bool) :
    Repeats (settings.stripping strips) source doc ↔ Repeats settings source doc := by
  have hapart : KeepsApart (settings.stripping strips) (unmarked doc.nodes) ↔
      KeepsApart settings (unmarked doc.nodes) := keepsApart_stripping strips _
  exact ⟨fun h => ⟨h.values, h.closed, hapart.mp h.apart, h.rendered⟩,
    fun h => ⟨h.values, h.closed, hapart.mpr h.apart, h.rendered⟩⟩

theorem Repeats.refl (hclosed : ∀ block ∈ checked settings source.nodes, block.isClosed = true)
    (hapart : KeepsApart settings (unmarked source.nodes)) : Repeats settings source source :=
  ⟨rfl, hclosed, hapart, fun _ _ => rfl⟩

theorem Repeats.length_checked (h : Repeats settings source doc) :
    (checked settings doc.nodes).length = (checked settings source.nodes).length := by
  simpa using congrArg List.length h.values

/-- Reading the annotated document again makes a repetition, stripped before or not. -/
theorem Repeats.reread (h : Repeats settings source doc) (number : Nat) (markers : List Marker) :
    Repeats settings source ⟨reread settings number markers (settings.kept doc).nodes⟩ where
  values := by
    rw [map_checked_reread CodeBlock.value CodeBlock.value_onLine CodeBlock.value_ended,
      checked_kept, h.values]
  closed := by
    refine isClosed_of_mem_checked_reread ?_
    rw [checked_kept]
    exact h.closed
  apart := by
    refine keepsApart_unmarked_reread ?_
    rw [unmarked_kept]
    exact h.apart
  rendered := by
    intro others hlength
    rw [← h.rendered others hlength, render, render, annotate, annotate, nodes_strip, nodes_strip,
      raw_annotate_unmarked_reread, unmarked_kept]
    · rw [checked_kept]
      exact h.closed
    · rw [unmarked_kept]
      exact h.apart
    · rw [checked_kept, h.length_checked, hlength]

end Document

namespace Evaluator

open Document (Repeats)

variable {σ V : Type} (lang : Evaluator (StateT σ Option) V)

/-- The text after rounds one after the other, each from the same state; a flag tells of each
whether it strips the markers. -/
def textAfter (settings : Settings) (start : σ) : List Bool → String → Option String
  | [], text => some text
  | strips :: more, text =>
    (lang.round (settings.stripping strips) start text).bind fun result =>
      textAfter settings start more result.text

variable {lang} {settings : Settings} {start : σ} {source text : String}

/-- A round makes a repetition of a repetition. -/
theorem repeats_of_round {result : Round}
    (h : Repeats settings (.parse source) (.parse text))
    (hround : lang.round settings start text = some result) :
    Repeats settings (.parse source) (.parse result.text) := by
  rw [lang.parse_round h.closed hround]
  exact h.reread 1 _

/-- Rounds one after the other make a repetition of a repetition. -/
theorem repeats_of_textAfter {history : List Bool} {last : String}
    (h : Repeats settings (.parse source) (.parse text))
    (hlast : lang.textAfter settings start history text = some last) :
    Repeats settings (.parse source) (.parse last) := by
  induction history generalizing text with
  | nil =>
    cases hlast
    exact h
  | cons strips history ih =>
    obtain ⟨result, hround, hmore⟩ := Option.bind_eq_some_iff.mp hlast
    rw [← Document.repeats_stripping strips] at h
    have hnext := repeats_of_round h hround
    rw [Document.repeats_stripping] at hnext
    exact ih hnext hmore

/-- The verdicts of a round on a repetition are those on the values of the source. -/
theorem map_verdicts_round (h : Repeats settings (.parse source) (.parse text)) :
    (lang.round settings start text).map Round.verdicts =
      lang.verdicts start ((Document.checked settings
        (Document.parse source).nodes).map CodeBlock.value) := by
  rw [round_eq, Document.checked_kept, h.values, Option.map_map]
  exact Option.map_id_apply

/-- The text after a round that strips is that of the source without markers, annotated with the
verdicts on its values. -/
theorem textAfter_strip_eq (h : Repeats settings (.parse source) (.parse text)) :
    lang.textAfter settings start [true] text =
      (lang.verdicts start ((Document.checked settings
        (Document.parse source).nodes).map CodeBlock.value)).map fun found =>
          ((Document.parse source).strip.annotate settings.checks
            (found.map Verdict.marker)).render := by
  have hvalues : (Document.checked (settings.stripping true) (Document.parse text).nodes).map
      CodeBlock.value = (Document.checked settings (Document.parse source).nodes).map
        CodeBlock.value := h.values
  rw [textAfter, round_eq, Document.checked_kept, hvalues]
  cases hfound : lang.verdicts start ((Document.checked settings
      (Document.parse source).nodes).map CodeBlock.value) with
  | none => rfl
  | some found =>
    have hlength : (found.map Verdict.marker).length =
        (Document.checked settings (Document.parse source).nodes).length := by
      simpa using lang.length_verdicts hfound
    exact congrArg some (h.rendered _ hlength)

/-- After a history of rounds, a round that strips gives the same text as without the history. -/
theorem textAfter_append_strip (hsource : Repeats settings (.parse source) (.parse source))
    (h : Repeats settings (.parse source) (.parse text)) (history : List Bool) :
    lang.textAfter settings start (history ++ [true]) text =
      lang.textAfter settings start [true] source := by
  induction history generalizing text with
  | nil => rw [List.nil_append, textAfter_strip_eq h, textAfter_strip_eq hsource]
  | cons strips history ih =>
    rw [List.cons_append, textAfter]
    rw [← Document.repeats_stripping strips] at h
    cases hround : lang.round (settings.stripping strips) start text with
    | none =>
      have hnone : lang.verdicts start ((Document.checked settings
          (Document.parse source).nodes).map CodeBlock.value) = none := by
        have hverdicts := (map_verdicts_round h).symm.trans (congrArg (·.map Round.verdicts) hround)
        exact hverdicts
      rw [textAfter_strip_eq hsource, hnone]
      rfl
    | some result =>
      have hnext := repeats_of_round h hround
      rw [Document.repeats_stripping] at hnext
      exact ih hnext

/-- A round that keeps the markers puts one more directly after each checked block. -/
theorem markersAfter_round {result : Round}
    (h : Repeats settings (.parse source) (.parse text))
    (hround : lang.round (settings.stripping false) start text = some result) :
    Document.markersAfter settings (Document.parse result.text).nodes =
        List.zipWith List.cons (result.verdicts.map Verdict.marker)
          (Document.markersAfter settings (Document.parse text).nodes) ∧
      (Document.parse result.text).markers.length = (Document.parse text).markers.length +
        (Document.checked settings (Document.parse source).nodes).length := by
  have hread : Document.parse result.text =
      ⟨Document.reread settings 1 (result.verdicts.map Verdict.marker)
        (Document.parse text).nodes⟩ := by
    rw [← Document.reread_stripping false]
    exact lang.parse_round h.closed hround
  have hlength : (result.verdicts.map Verdict.marker).length =
      (Document.checked settings (Document.parse text).nodes).length := by
    rw [List.length_map, lang.length_verdicts_round hround]
    rfl
  have hapart := Document.keepsApart_of_unmarked h.apart
  rw [hread]
  refine ⟨Document.markersAfter_reread hlength hapart, ?_⟩
  have hcount := Document.length_markers_reread 1 hlength
  rw [Document.mistakes_eq_zero_iff.mpr hapart, hlength, h.length_checked] at hcount
  exact hcount

/-- **Idempotence.** If every checked block of a text is closed, and without its markers no text
directly after a checked block begins as a marker does, then a round that strips gives the same text
whatever rounds came before it. All rounds give the same verdicts, and a round that does not strip
puts one more marker directly after each checked block, and no other. -/
theorem rounds_idempotent (lang : Evaluator (StateT σ Option) V) (settings : Settings) (start : σ)
    (source : String)
    (hclosed : ∀ block ∈ Document.checked settings (Document.parse source).nodes,
      block.isClosed = true)
    (hapart : Document.KeepsApart settings (Document.parse source).strip.nodes) :
    (∀ history, lang.textAfter settings start (history ++ [true]) source =
        lang.textAfter settings start [true] source) ∧
      ∀ history text, lang.textAfter settings start history source = some text →
        (∀ strips, (lang.round (settings.stripping strips) start text).map Round.verdicts =
          (lang.round settings start source).map Round.verdicts) ∧
        ∀ result, lang.round (settings.stripping false) start text = some result →
          Document.markersAfter settings (Document.parse result.text).nodes =
              List.zipWith List.cons (result.verdicts.map Verdict.marker)
                (Document.markersAfter settings (Document.parse text).nodes) ∧
            (Document.parse result.text).markers.length = (Document.parse text).markers.length +
              (Document.checked settings (Document.parse source).nodes).length := by
  have hsource : Repeats settings (.parse source) (.parse source) := .refl hclosed hapart
  refine ⟨textAfter_append_strip hsource hsource, fun history text hlast => ?_⟩
  have h := repeats_of_textAfter hsource hlast
  refine ⟨fun strips => ?_, fun result => markersAfter_round h⟩
  rw [map_verdicts_round hsource]
  exact map_verdicts_round ((Document.repeats_stripping strips).mpr h)

/-- Two blocks, an old marker and a missing line feed at the end: a round that keeps the markers and
one that strips them change nothing for the next that strips. -/
theorem textAfter_two_blocks :
    (∀ block ∈ Document.checked {} (Document.parse
      "~~~js\n> 'a'\n'a'\n~~~\n\n❌ old\nb\n~~~js\n\n~~~").nodes, block.isClosed = true) ∧
    Document.KeepsApart {} (Document.parse
      "~~~js\n> 'a'\n'a'\n~~~\n\n❌ old\nb\n~~~js\n\n~~~").strip.nodes ∧
    (Script.evaluator Script.amplyManyLevels).textAfter {} Script.Session.new [false, true, true]
        "~~~js\n> 'a'\n'a'\n~~~\n\n❌ old\nb\n~~~js\n\n~~~" =
      some ("~~~js\n> 'a'\n'a'\n~~~\n\n✅ \x60speccheck\x60ed\n\nb\n~~~js\n\n~~~\n\n" ++
        "❌ \x60Error: at least one input required\x60\n") := by
  have hclosed : ∀ block ∈ Document.checked {} (Document.parse
      "~~~js\n> 'a'\n'a'\n~~~\n\n❌ old\nb\n~~~js\n\n~~~").nodes, block.isClosed = true := by
    decide +kernel
  have hapart : Document.KeepsApart {} (Document.parse
      "~~~js\n> 'a'\n'a'\n~~~\n\n❌ old\nb\n~~~js\n\n~~~").strip.nodes :=
    Document.mistakes_eq_zero_iff.mp (by decide +kernel)
  have hsame := (rounds_idempotent (Script.evaluator Script.amplyManyLevels) {}
    Script.Session.new _ hclosed hapart).1 [false, true]
  exact ⟨hclosed, hapart, hsame.trans (by decide +kernel)⟩

end Evaluator

end Doctest
