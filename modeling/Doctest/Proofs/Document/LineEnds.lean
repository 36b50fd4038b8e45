import Doctest.Proofs.Document.MarkerLine
import Doctest.Proofs.Document.RoundTrip
import Doctest.Proofs.Document.Stripping

/-!
# Line ends

A text without carriage returns is read to the same nodes when one is put before each of its line
feeds: only the raw characters of the nodes are others.
-/

namespace Doctest

namespace Text

/-- A text with a carriage return before each line feed. -/
def withReturns (s : List Char) : List Char :=
  s.flatMap fun c => if c = '\n' then ['\r', '\n'] else [c]

@[simp] theorem withReturns_nil : withReturns [] = [] := rfl

@[simp] theorem withReturns_append (s t : List Char) :
    withReturns (s ++ t) = withReturns s ++ withReturns t :=
  List.flatMap_append

@[simp] theorem withReturns_flatten (ls : List (List Char)) :
    withReturns ls.flatten = (ls.map withReturns).flatten := by
  induction ls with
  | nil => rfl
  | cons line ls ih => simp [ih]

@[simp] theorem withReturns_feed : withReturns ['\n'] = ['\r', '\n'] := rfl

/-- A text without line feeds gets no carriage returns. -/
theorem withReturns_of_not_mem {s : List Char} (hs : '\n' ∉ s) : withReturns s = s := by
  induction s with
  | nil => rfl
  | cons c s ih =>
    rw [List.mem_cons, not_or] at hs
    have hrest : withReturns s = s := ih hs.2
    rw [withReturns] at hrest ⊢
    rw [List.flatMap_cons, hrest, if_neg (Ne.symm hs.1), List.singleton_append]

/-- The last character stays the last one. -/
@[simp] theorem getLast?_withReturns (s : List Char) : (withReturns s).getLast? = s.getLast? := by
  rcases List.eq_nil_or_concat s with rfl | ⟨s, c, rfl⟩
  · rfl
  · rw [List.concat_eq_append, withReturns_append]
    by_cases hc : c = '\n'
    · subst hc
      simp
    · simp [withReturns, hc]

/-- Lines stay lines with their carriage returns. -/
theorem AreLines.withReturns {ls : List (List Char)} (h : AreLines ls) :
    AreLines (ls.map Text.withReturns) where
  isLine := by
    intro line hmem
    obtain ⟨line, hline, rfl⟩ := List.mem_map.mp hmem
    have hisLine := h.isLine line hline
    by_cases hend : IsTerminated line
    · obtain ⟨s, hs, rfl⟩ := isLine_and_isTerminated_iff.mp ⟨hisLine, hend⟩
      rw [withReturns_append, withReturns_of_not_mem hs, withReturns_feed]
      exact IsLineEnd.isLine_append (.inr rfl) hs
    · rwa [withReturns_of_not_mem (hisLine.not_mem_of_not_isTerminated hend)]
  terminated := by
    intro line hmem
    rw [← List.map_dropLast] at hmem
    obtain ⟨line, hline, rfl⟩ := List.mem_map.mp hmem
    rw [IsTerminated, getLast?_withReturns]
    exact h.terminated line hline

/-- Every line gets its own carriage return. -/
@[simp] theorem lines_withReturns (s : List Char) :
    lines (withReturns s) = (lines s).map withReturns := by
  conv_lhs => rw [← flatten_lines s, withReturns_flatten]
  exact lines_flatten (areLines_lines s).withReturns

/-- A line keeps what it has before its terminator. -/
theorem dropLineEnd_withReturns {line : List Char} (hline : IsLine line) (hreturn : '\r' ∉ line) :
    dropLineEnd (withReturns line) = dropLineEnd line := by
  by_cases hend : IsTerminated line
  · obtain ⟨s, hs, rfl⟩ := isLine_and_isTerminated_iff.mp ⟨hline, hend⟩
    have hlast : s.getLast? ≠ some '\r' := fun hlast =>
      hreturn (List.mem_append_left _ (List.mem_of_getLast? hlast))
    rw [withReturns_append, withReturns_of_not_mem hs, withReturns_feed,
      dropLineEnd_append_return_feed, dropLineEnd_append_feed, dropReturn_of_getLast? hlast]
  · rw [withReturns_of_not_mem (hline.not_mem_of_not_isTerminated hend)]

end Text

/-- The block with a carriage return before each line feed. -/
def CodeBlock.withReturns (block : CodeBlock) : CodeBlock :=
  { block with
    opening := Text.withReturns block.opening
    body := block.body.map Text.withReturns
    closing := block.closing.map Text.withReturns }

/-- The node with a carriage return before each line feed. What it is a marker of stays. -/
def Node.withReturns : Node → Node
  | .text raw => .text (Text.withReturns raw)
  | .code block => .code block.withReturns
  | .marker found raw => .marker found (Text.withReturns raw)

/-- The document with a carriage return before each line feed. -/
def Document.withReturns (doc : Document) : Document :=
  ⟨doc.nodes.map Node.withReturns⟩

theorem Document.nodes_withReturns (doc : Document) :
    doc.withReturns.nodes = doc.nodes.map Node.withReturns := rfl

@[simp] theorem Node.withReturns_text (raw : List Char) :
    (Node.text raw).withReturns = .text (Text.withReturns raw) := rfl

@[simp] theorem Node.withReturns_code (block : CodeBlock) :
    (Node.code block).withReturns = .code block.withReturns := rfl

@[simp] theorem Node.withReturns_marker (marker : Marker) (raw : List Char) :
    (Node.marker marker raw).withReturns = .marker marker (Text.withReturns raw) := rfl

@[simp] theorem CodeBlock.raw_withReturns (block : CodeBlock) :
    block.withReturns.raw = Text.withReturns block.raw := by
  cases hclosing : block.closing <;> simp [raw, withReturns, hclosing]

@[simp] theorem CodeBlock.isClosed_withReturns (block : CodeBlock) :
    block.withReturns.isClosed = block.isClosed :=
  Option.isSome_map

@[simp] theorem Node.raw_withReturns (node : Node) :
    node.withReturns.raw = Text.withReturns node.raw := by
  cases node with
  | text raw => rfl
  | code block => exact block.raw_withReturns
  | marker marker raw => rfl

/-- The characters of a document get their carriage returns with it. -/
theorem Document.render_withReturns (doc : Document) :
    doc.withReturns.render = String.ofList (Text.withReturns doc.render.toList) := by
  have hnodes (nodes : List Node) : (nodes.map Node.withReturns).flatMap Node.raw =
      Text.withReturns (nodes.flatMap Node.raw) := by
    induction nodes with
    | nil => rfl
    | cons node rest ih => simp [ih]
  rw [render, render, String.toList_ofList, withReturns, hnodes]

@[simp] theorem CodeBlock.lines_withReturns (block : CodeBlock) :
    block.withReturns.lines = block.lines.map Text.withReturns := by
  cases hclosing : block.closing <;> simp [lines, withReturns, hclosing]

@[simp] theorem Node.lines_withReturns (node : Node) :
    node.withReturns.lines = node.lines.map Text.withReturns := by
  cases node with
  | text raw => exact Text.lines_withReturns raw
  | code block => exact block.lines_withReturns
  | marker marker raw => exact Text.lines_withReturns raw

/-- A line whose carriage return makes no difference before its terminator. -/
abbrev Text.Evenly (line : List Char) : Prop :=
  dropLineEnd (withReturns line) = dropLineEnd line

/-- The same lines open and close the block. -/
theorem CodeBlock.WellFormed.withReturns {block : CodeBlock} (h : block.WellFormed)
    (hends : ∀ line ∈ block.lines, Text.Evenly line) : block.withReturns.WellFormed := by
  simp only [lines, List.cons_append, List.forall_mem_cons, List.forall_mem_append] at hends
  obtain ⟨hopening, hbody, hclosing⟩ := hends
  refine ⟨hopening ▸ h.opens, fun line hmem => ?_, fun line hmem => ?_⟩
  · obtain ⟨line, hline, rfl⟩ := List.mem_map.mp hmem
    exact hbody line hline ▸ h.staysOpen line hline
  · obtain ⟨line, hline, rfl⟩ := Option.map_eq_some_iff.mp hmem
    exact hclosing line (Option.mem_toList.mpr hline) ▸ h.closes line hline

namespace Document

theorem lines_map_withReturns (nodes : List Node) :
    (nodes.map Node.withReturns).flatMap Node.lines =
      (nodes.flatMap Node.lines).map Text.withReturns := by
  induction nodes with
  | nil => rfl
  | cons node rest ih => simp [ih]

/-- The same markers are ahead. -/
theorem markerAhead?_withReturns {ls : List (List Char)} (hends : ∀ line ∈ ls, Text.Evenly line) :
    markerAhead? (ls.map Text.withReturns) = markerAhead? ls := by
  match ls with
  | [] | [_] => rfl
  | blank :: line :: rest =>
    simp only [List.forall_mem_cons] at hends
    rw [List.map_cons, List.map_cons, markerAhead?, markerAhead?, hends.1, hends.2.1]

/-- The nodes are arranged as they are read. -/
theorem Arranged.withReturns {marks : Bool} {nodes : List Node} (h : Arranged marks nodes)
    (hends : ∀ line ∈ nodes.flatMap Node.lines, Text.Evenly line) :
    Arranged marks (nodes.map Node.withReturns) := by
  induction nodes generalizing marks with
  | nil => trivial
  | cons node rest ih =>
    rw [List.flatMap_cons, List.forall_mem_append] at hends
    cases node with
    | text raw =>
      obtain ⟨hraw, hopens, hahead, hnext, hrest⟩ := h
      have hends' : ∀ line ∈ Text.lines raw, Text.Evenly line := hends.1
      rw [List.map_cons, Node.withReturns_text, Arranged, Text.lines_withReturns,
        markerAhead?_withReturns hends']
      refine ⟨fun hnil => hraw ?_, ?_, hahead, fun next hhead => ?_, ih hrest hends.2⟩
      · rw [← Text.lines_eq_nil] at hnil ⊢
        rwa [Text.lines_withReturns, List.map_eq_nil_iff] at hnil
      · intro line hmem
        obtain ⟨line, hline, rfl⟩ := List.mem_map.mp hmem
        exact hends' line hline ▸ hopens line hline
      · rw [List.head?_map, Option.map_eq_some_iff] at hhead
        obtain ⟨node, hnode, heq⟩ := hhead
        cases node with
        | text found => exact hnext found hnode
        | code block | marker marker raw => cases heq
    | code block =>
      obtain ⟨hblock, hlast, hrest⟩ := h
      refine ⟨hblock.withReturns hends.1, ?_, ?_⟩
      · rw [block.isClosed_withReturns, List.map_eq_nil_iff]
        exact hlast
      · rw [block.isClosed_withReturns]
        exact ih hrest hends.2
    | marker marker raw =>
      obtain ⟨hmarks, hlength, hahead, hrest⟩ := h
      have hends' : ∀ line ∈ Text.lines raw, Text.Evenly line := hends.1
      rw [List.map_cons, Node.withReturns_marker, Arranged, Text.lines_withReturns,
        List.length_map, markerAhead?_withReturns hends']
      exact ⟨hmarks, hlength, hahead, ih hrest hends.2⟩

/-- The blocks stand on the same lines. -/
theorem Numbered.withReturns {number : Nat} {nodes : List Node} (h : Numbered number nodes) :
    Numbered number (nodes.map Node.withReturns) := by
  induction nodes generalizing number with
  | nil => trivial
  | cons node rest ih =>
    refine ⟨?_, ?_⟩
    · cases node with
      | text raw | marker marker raw => simp [Node.code?]
      | code block =>
        rintro _ ⟨⟩
        exact h.1 block rfl
    · rw [Node.lines_withReturns, List.length_map]
      exact ih h.2

/-- A text without carriage returns has none in its lines. -/
theorem not_mem_of_mem_lines {source : String} (hreturn : '\r' ∉ source.toList) :
    ∀ line ∈ (parse source).lines, '\r' ∉ line := by
  intro line hmem hmemLine
  rw [← Text.flatten_lines source.toList, ← lines_parse] at hreturn
  exact hreturn (List.mem_flatten_of_mem hmem hmemLine)

/-- Lines without carriage returns are what they were without their terminators. -/
theorem evenly_of_not_mem {nodes : List Node} (hlines : Text.AreLines (nodes.flatMap Node.lines))
    (hreturn : ∀ line ∈ nodes.flatMap Node.lines, '\r' ∉ line) :
    ∀ line ∈ nodes.flatMap Node.lines, Text.Evenly line :=
  fun line hmem => Text.dropLineEnd_withReturns (hlines.isLine line hmem) (hreturn line hmem)

/-- **Reading line ends.** With a carriage return before each line feed, a text is read to the same
nodes with these carriage returns. -/
theorem parse_withReturns {source : String} (hreturn : '\r' ∉ source.toList) :
    parse (String.ofList (Text.withReturns source.toList)) = (parse source).withReturns := by
  have hdoc := wellFormed_parse source
  have hends := evenly_of_not_mem hdoc.lines (not_mem_of_mem_lines hreturn)
  have hwellFormed : (parse source).withReturns.WellFormed := by
    refine ⟨?_, hdoc.arranged.withReturns hends, hdoc.numbered.withReturns⟩
    rw [Document.lines, withReturns, lines_map_withReturns]
    exact hdoc.lines.withReturns
  rw [← parse_render hwellFormed, render_withReturns, render_parse]

end Document

end Doctest
