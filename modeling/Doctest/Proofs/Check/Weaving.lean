import Mathlib.Data.List.Induction
import Doctest.Proofs.Check.Round

/-!
# Code between texts

A document that is written as code blocks with texts around them is checked as its code is run,
block after block: the code comes back from the lines of the document, and the texts play no part.
-/

namespace Doctest

/-- The fence that three backticks and the name of the language open. -/
def Fence.js : Fence :=
  ⟨0, backtick, 3, "js".toList⟩

/-- The line that opens the fence. -/
def Fence.jsOpening : List Char :=
  "\x60\x60\x60js\n".toList

/-- The line that closes the fence. -/
def Fence.jsClosing : List Char :=
  "\x60\x60\x60\n".toList

theorem Fence.open?_jsOpening : open? (Text.dropLineEnd jsOpening) = some js := by
  decide

theorem Fence.isClosedBy_jsClosing : js.isClosedBy (Text.dropLineEnd jsClosing) = true := by
  decide

theorem Fence.language?_js : js.language? = some "js" := by
  decide

namespace Document

/-- The lines of a code block with this code. -/
def fenced (code : String) : List (List Char) :=
  Fence.jsOpening :: (Text.splitLines code.toList).map (· ++ ['\n']) ++ [Fence.jsClosing]

/-- A text, and code blocks with a text after each. -/
def woven (first : List Char) (parts : List (String × List Char)) : List Char :=
  first ++ parts.flatMap fun part => (fenced part.1).flatten ++ part.2

/-- Code whose lines stay what they are in a code block. -/
structure Fits (code : String) : Prop where
  staysOpen : ∀ line ∈ Text.splitLines code.toList, Fence.js.isClosedBy line = false
  noReturn : ∀ line ∈ Text.splitLines code.toList, line.getLast? ≠ some '\r'

/-- A text to stand between code blocks: its lines are terminated, and none opens a fence. -/
structure Between (text : List Char) : Prop where
  ends : text = [] ∨ Text.IsTerminated text
  opensNone : ∀ line ∈ Text.lines text, Fence.open? (Text.dropLineEnd line) = none

/-- The block that these lines are read to. -/
def jsBlock (number : Nat) (code : String) : CodeBlock where
  line := number
  fence := .js
  opening := Fence.jsOpening
  body := (Text.splitLines code.toList).map (· ++ ['\n'])
  closing := some Fence.jsClosing

/-- A line of code is what it was without its terminator. -/
theorem Fits.dropLineEnd {code : String} (h : Fits code) {line : List Char}
    (hmem : line ∈ Text.splitLines code.toList) : Text.dropLineEnd (line ++ ['\n']) = line := by
  rw [Text.dropLineEnd_append_feed, Text.dropReturn_of_getLast? (h.noReturn line hmem)]

/-- The block is read from its lines. -/
theorem Fits.wellFormed {code : String} (h : Fits code) (number : Nat) :
    (jsBlock number code).WellFormed where
  opens := Fence.open?_jsOpening
  staysOpen := by
    intro line hmem
    obtain ⟨line, hline, rfl⟩ := List.mem_map.mp hmem
    rw [h.dropLineEnd hline]
    exact h.staysOpen line hline
  closes := by
    rintro line ⟨⟩
    exact Fence.isClosedBy_jsClosing

/-- The code of the block is the code that it was written with. -/
theorem Fits.value {code : String} (h : Fits code) (number : Nat) :
    (jsBlock number code).value = code := by
  have hlines : (jsBlock number code).body.map (CodeBlock.codeLine Fence.js.indent) =
      Text.splitLines code.toList := by
    rw [jsBlock, List.map_map]
    refine (List.map_congr_left fun line hmem => ?_).trans (List.map_id _)
    rw [Function.comp_apply, CodeBlock.codeLine, h.dropLineEnd hmem, Fence.js, Nat.min_zero,
      List.drop_zero, id]
  apply String.toList_injective
  rw [CodeBlock.value, String.toList_intercalate, List.map_map]
  have htexts : (String.toList ∘ fun line =>
      String.ofList (CodeBlock.codeLine (jsBlock number code).fence.indent line)) =
        CodeBlock.codeLine Fence.js.indent :=
    funext fun line => String.toList_ofList
  rw [htexts, hlines]
  exact Text.intercalate_splitLines code.toList

/-- The block is checked if its language is. -/
theorem checks_jsBlock {settings : Settings} (hjs : "js" ∈ settings.languages) (number : Nat)
    (code : String) : settings.checks (jsBlock number code) = true := by
  have hlanguage : (jsBlock number code).language? = some "js" := Fence.language?_js
  rw [Settings.checks, hlanguage, Option.any_some, decide_eq_true hjs]

/-- The lines of a block are terminated lines. -/
theorem isLine_of_mem_fenced {code : String} :
    ∀ line ∈ fenced code, Text.IsLine line ∧ Text.IsTerminated line := by
  simp only [fenced, List.cons_append, List.forall_mem_cons, List.forall_mem_append]
  have hended (line : List Char) (hline : '\n' ∉ line) :
      Text.IsLine (line ++ ['\n']) ∧ Text.IsTerminated (line ++ ['\n']) :=
    Text.isLine_and_isTerminated_iff.mpr ⟨line, hline, rfl⟩
  refine ⟨hended "\x60\x60\x60js".toList (by decide), fun line hmem => ?_,
    hended "\x60\x60\x60".toList (by decide), by simp⟩
  obtain ⟨line, hline, rfl⟩ := List.mem_map.mp hmem
  exact hended line (Text.not_mem_of_mem_splitLines hline)

/-- The lines of the document are those of its texts and of its blocks. -/
theorem lines_woven {first : List Char} {parts : List (String × List Char)} (hfirst : Between first)
    (hparts : ∀ part ∈ parts, Between part.2) :
    Text.lines (woven first parts) =
      Text.lines first ++ parts.flatMap fun part => fenced part.1 ++ Text.lines part.2 := by
  have htext {text : List Char} (htext : Between text) (rest : List Char) :
      Text.lines (text ++ rest) = Text.lines text ++ Text.lines rest := by
    conv_lhs => rw [← Text.flatten_lines text]
    exact Text.lines_flatten_append (Text.areLines_lines text).isLine
      (fun line hmem => Text.isTerminated_of_mem_lines htext.ends hmem) rest
  rw [woven, htext hfirst]
  congr 1
  induction parts with
  | nil => rfl
  | cons part rest ih =>
    rw [List.forall_mem_cons] at hparts
    rw [List.flatMap_cons, List.flatMap_cons, List.append_assoc,
      Text.lines_flatten_append (fun line hmem => (isLine_of_mem_fenced line hmem).1)
        (fun line hmem => (isLine_of_mem_fenced line hmem).2),
      htext hparts.1, ih hparts.2, List.append_assoc]

section Reading

variable {settings : Settings} {rest : List (List Char)}

theorem checked_withText (line : List Char) (nodes : List Node) :
    checked settings (withText line nodes) = checked settings nodes := by
  fun_cases withText line nodes <;> rfl

/-- Lines that open no fence hold no block. -/
theorem checked_nodesOf_append {text : List (List Char)}
    (htext : ∀ line ∈ text, Fence.open? (Text.dropLineEnd line) = none) (number : Nat) :
    checked settings (nodesOf number (text ++ rest)) =
      checked settings (nodesOf (number + text.length) rest) := by
  induction text generalizing number with
  | nil => rfl
  | cons line text ih =>
    rw [List.forall_mem_cons] at htext
    rw [List.cons_append, nodesOf_text _ _ htext.1, checked_withText, ih htext.2, List.length_cons,
      Nat.add_assoc, Nat.add_comm 1]

/-- They hold none either where markers may be among them, if what comes next is a fence or
nothing. -/
theorem checked_nodesAfter_append (hrest : ∀ line ∈ rest.head?,
      ∃ fence, Fence.open? (Text.dropLineEnd line) = some fence) (marks : Bool) (number : Nat)
    {text : List (List Char)}
    (htext : ∀ line ∈ text, Fence.open? (Text.dropLineEnd line) = none) :
    checked settings (nodesAfter marks number (text ++ rest)) =
      checked settings (nodesOf (number + text.length) rest) := by
  have hplain {marks : Bool} {number : Nat} {text : List (List Char)}
      (htext : ∀ line ∈ text, Fence.open? (Text.dropLineEnd line) = none)
      (hahead : markerAhead? text = none) :
      checked settings (nodesAfter marks number (text ++ rest)) =
        checked settings (nodesOf (number + text.length) rest) := by
    have hboth : markerAhead? (text ++ rest) = none := by
      cases rest with
      | nil => rwa [List.append_nil]
      | cons line more =>
        obtain ⟨fence, hopen⟩ := hrest line rfl
        exact markerAhead?_append_of_open? hahead hopen
    rw [nodesAfter_of_eq_none number fun _ => hboth]
    exact checked_nodesOf_append htext number
  -- Markers take two lines each.
  induction text using List.twoStepInduction generalizing marks number with
  | nil => exact hplain htext rfl
  | singleton line => exact hplain htext rfl
  | cons_cons blank line text ih =>
    cases hahead : markerAhead? (blank :: line :: text) with
    | none => exact hplain htext hahead
    | some marker =>
      cases marks with
      | false =>
        rw [nodesAfter_of_eq_none number (fun h => by cases h)]
        exact checked_nodesOf_append htext number
      | true =>
        simp only [List.forall_mem_cons] at htext
        have hmarker : nodesAfter true number (blank :: line :: (text ++ rest)) = _ :=
          nodesAfter_marker number hahead
        rw [List.cons_append, List.cons_append, hmarker, checked_marker,
          ih true (number + 2) htext.2.2, List.length_cons, List.length_cons]
        congr 2
        omega

/-- The code comes back from the lines of the document. -/
theorem map_value_checked_nodesAfter (hjs : "js" ∈ settings.languages)
    {parts : List (String × List Char)} (hparts : ∀ part ∈ parts, Fits part.1 ∧ Between part.2)
    {text : List Char} (htext : Between text) (marks : Bool) (number : Nat) :
    (checked settings (nodesAfter marks number (Text.lines text ++
      parts.flatMap fun part => fenced part.1 ++ Text.lines part.2))).map CodeBlock.value =
        parts.map Prod.fst := by
  induction parts generalizing text marks number with
  | nil =>
    rw [List.flatMap_nil, checked_nodesAfter_append (by simp) marks number htext.opensNone,
      nodesOf]
    rfl
  | cons part parts ih =>
    rw [List.forall_mem_cons] at hparts
    obtain ⟨⟨hcode, hafter⟩, hparts⟩ := hparts
    have hhead : ∀ line ∈ ((part :: parts).flatMap fun part =>
        fenced part.1 ++ Text.lines part.2).head?,
        ∃ fence, Fence.open? (Text.dropLineEnd line) = some fence := by
      rintro line ⟨⟩
      exact ⟨.js, Fence.open?_jsOpening⟩
    have hread (start : Nat) : nodesOf start ((part :: parts).flatMap fun part =>
        fenced part.1 ++ Text.lines part.2) = .code (jsBlock start part.1) ::
          nodesAfter true (start + (fenced part.1).length) (Text.lines part.2 ++
            parts.flatMap fun part => fenced part.1 ++ Text.lines part.2) := by
      rw [List.flatMap_cons, List.append_assoc]
      exact nodesAfter_append_code false (hcode.wellFormed start) (.inl rfl)
    rw [checked_nodesAfter_append hhead marks number htext.opensNone, hread, checked_code,
      if_pos (checks_jsBlock hjs _ _), List.map_cons, List.map_cons, hcode.value,
      ih hparts hafter]

end Reading

end Document

namespace Evaluator

open Document

variable {σ V : Type} (lang : Evaluator (StateT σ Option) V)

/-- **Code between texts.** Checking a document of code blocks with texts around them comes to an
end exactly if its code runs in turn from the same state, and then there is one verdict for each
code, the one that running it gives. -/
theorem checkDocument_woven_iff (settings : Settings) (hjs : "js" ∈ settings.languages)
    {first : List Char} {parts : List (String × List Char)} (hfirst : Between first)
    (hparts : ∀ part ∈ parts, Fits part.1 ∧ Between part.2) (start last : σ)
    (verdicts : List Verdict) :
    (∃ report doc,
      (lang.checkDocument settings (parse (String.ofList (woven first parts)))).run start =
        some ((report, doc), last) ∧
      report.total = parts.length ∧ report.blocks.map BlockResult.verdict = verdicts) ↔
        lang.RunInTurn start (parts.map Prod.fst) verdicts last := by
  have hvalues : (checked settings
      (parse (String.ofList (woven first parts))).nodes).map CodeBlock.value =
        parts.map Prod.fst := by
    rw [parse, String.toList_ofList, lines_woven hfirst fun part hmem => (hparts part hmem).2]
    exact map_value_checked_nodesAfter hjs hparts hfirst false 1
  have hlength {found : List Verdict}
      (hturn : lang.RunInTurn start (parts.map Prod.fst) found last) : found.length =
        (checked settings (parse (String.ofList (woven first parts))).nodes).length := by
    rw [hturn.length, ← hvalues, List.length_map]
  rw [run_checkDocument, hvalues]
  constructor
  · rintro ⟨report, doc, hrun, -, rfl⟩
    obtain ⟨⟨found, after⟩, hfound, heq⟩ := Option.map_eq_some_iff.mp hrun
    cases heq
    have hturn := runInTurn_iff.mpr hfound
    rwa [Report.map_verdict_ofVerdicts (hlength hturn)]
  · intro hturn
    have hverdicts := Report.map_verdict_ofVerdicts (hlength hturn)
    refine ⟨_, _, by rw [runInTurn_iff.mp hturn, Option.map_some], ?_, hverdicts⟩
    rw [Report.total, ← List.length_map BlockResult.verdict, hverdicts, hturn.length,
      List.length_map]

/-- Two blocks with a text between them that looks like a marker: the second one knows what the
first has declared. -/
theorem checkDocument_woven_declared :
    "js" ∈ ["js"] ∧ Between "# a\n".toList ∧
    (∀ part ∈ [("> let a = 'x'\nundefined", "\n✅ b\n".toList), ("> a\n'y'", [])],
      Fits part.1 ∧ Between part.2) ∧
    ∃ report doc last, ((Script.evaluator Script.amplyManyLevels).checkDocument ⟨["js"], false⟩
        (parse (String.ofList (woven "# a\n".toList
          [("> let a = 'x'\nundefined", "\n✅ b\n".toList), ("> a\n'y'", [])])))).run
            Script.Session.new = some ((report, doc), last) ∧
      report.total = 2 ∧
      report.blocks.map BlockResult.verdict = [.pass, .fail (.mismatch "a" "'y'" "'x'")] := by
  have hfirst : Between "# a\n".toList := ⟨.inr rfl, by decide +kernel⟩
  have hparts : ∀ part ∈ [("> let a = 'x'\nundefined", "\n✅ b\n".toList), ("> a\n'y'", [])],
      Fits part.1 ∧ Between part.2 := by
    simp only [List.forall_mem_cons]
    exact ⟨⟨⟨by decide +kernel, by decide +kernel⟩, .inr rfl, by decide +kernel⟩,
      ⟨⟨by decide +kernel, by decide +kernel⟩, .inl rfl, by decide +kernel⟩, by simp⟩
  have hrun : ((["> let a = 'x'\nundefined", "> a\n'y'"].mapM
      (Script.evaluator Script.amplyManyLevels).runBlock).run Script.Session.new).map Prod.fst =
        some [.pass, .fail (.mismatch "a" "'y'" "'x'")] := by
    decide +kernel
  obtain ⟨⟨_, last⟩, hturn, rfl⟩ := Option.map_eq_some_iff.mp hrun
  obtain ⟨report, doc, hcheck⟩ :=
    (checkDocument_woven_iff (Script.evaluator Script.amplyManyLevels) ⟨["js"], false⟩
      (List.mem_singleton_self _) hfirst hparts _ last _).mpr (runInTurn_iff.mpr hturn)
  exact ⟨List.mem_singleton_self _, hfirst, hparts, report, doc, last, hcheck⟩

end Evaluator

end Doctest
