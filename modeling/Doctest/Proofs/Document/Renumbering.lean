import Doctest.Proofs.Document.RoundTrip
import Doctest.Proofs.Document.Stripping

/-!
# Reading a stripped document again

A document without its markers is rendered to a text that is read to the same nodes. Only the lines
are counted anew, since those of the markers are gone.
-/

namespace Doctest

/-- The block with its opening fence on another line. -/
def CodeBlock.onLine (block : CodeBlock) (number : Nat) : CodeBlock :=
  { block with line := number }

/-- The node with another line, if it is a block. -/
def Node.onLine (number : Nat) : Node → Node
  | .code block => .code (block.onLine number)
  | node => node

section OnLine

variable (block : CodeBlock) (number : Nat)

@[simp] theorem CodeBlock.line_onLine : (block.onLine number).line = number := rfl

@[simp] theorem CodeBlock.fence_onLine : (block.onLine number).fence = block.fence := rfl

@[simp] theorem CodeBlock.value_onLine : (block.onLine number).value = block.value := rfl

@[simp] theorem CodeBlock.raw_onLine : (block.onLine number).raw = block.raw := rfl

@[simp] theorem CodeBlock.lines_onLine : (block.onLine number).lines = block.lines := rfl

@[simp] theorem CodeBlock.newline_onLine : (block.onLine number).newline = block.newline := rfl

@[simp] theorem CodeBlock.isClosed_onLine : (block.onLine number).isClosed = block.isClosed := rfl

theorem CodeBlock.WellFormed.onLine {block : CodeBlock} (hblock : block.WellFormed) :
    (block.onLine number).WellFormed :=
  ⟨hblock.opens, hblock.staysOpen, hblock.closes⟩

@[simp] theorem Node.lines_onLine (node : Node) : (node.onLine number).lines = node.lines := by
  cases node <;> rfl

@[simp] theorem Node.raw_onLine (node : Node) : (node.onLine number).raw = node.raw := by
  cases node <;> rfl

@[simp] theorem Node.isMarker_onLine (node : Node) :
    (node.onLine number).isMarker = node.isMarker := by
  cases node <;> rfl

end OnLine

namespace Document

/-- The nodes with the numbers of their lines, if `number` is that of the first line of all. -/
def renumbered : Nat → List Node → List Node
  | _, [] => []
  | number, node :: rest => node.onLine number :: renumbered (number + node.lines.length) rest

theorem numbered_renumbered (number : Nat) (nodes : List Node) :
    Numbered number (renumbered number nodes) := by
  induction nodes generalizing number with
  | nil => trivial
  | cons node rest ih =>
    refine ⟨fun block hblock => ?_, ?_⟩
    · cases node with
      | code found =>
        cases hblock
        rfl
      | text raw | marker marker raw => cases hblock
    · rw [Node.lines_onLine]
      exact ih _

@[simp] theorem lines_renumbered (number : Nat) (nodes : List Node) :
    (renumbered number nodes).flatMap Node.lines = nodes.flatMap Node.lines := by
  induction nodes generalizing number with
  | nil => rfl
  | cons node rest ih => simp [renumbered, ih]

@[simp] theorem raw_renumbered (number : Nat) (nodes : List Node) :
    (renumbered number nodes).flatMap Node.raw = nodes.flatMap Node.raw := by
  induction nodes generalizing number with
  | nil => rfl
  | cons node rest ih => simp [renumbered, ih]

/-- The numbers of lines do not matter to where nodes may stand. -/
theorem arranged_renumbered {marks : Bool} {nodes : List Node} (h : Arranged marks nodes)
    (number : Nat) : Arranged marks (renumbered number nodes) := by
  induction nodes generalizing marks number with
  | nil => trivial
  | cons node rest ih =>
    cases node with
    | marker marker raw =>
      obtain ⟨hmarks, hlength, hmarker, hrest⟩ := h
      exact ⟨hmarks, hlength, hmarker, ih hrest _⟩
    | code block =>
      obtain ⟨hblock, hlast, hrest⟩ := h
      refine ⟨hblock.onLine number, hlast.imp_right ?_, ih hrest _⟩
      rintro rfl
      rfl
    | text raw =>
      obtain ⟨hne, hopen, hmarker, hnext, hrest⟩ := h
      refine ⟨hne, hopen, hmarker, fun next => ?_, ih hrest _⟩
      cases rest with
      | nil => nofun
      | cons node rest =>
        cases node with
        | text next => exact absurd rfl (hnext next)
        | code block | marker marker raw => nofun

/-- What the blocks of some nodes hold, whatever lines they are on. -/
theorem map_codeBlocks_renumbered {α : Type} {f : CodeBlock → α}
    (hf : ∀ block number, f (block.onLine number) = f block) (number : Nat) (nodes : List Node) :
    ((renumbered number nodes).filterMap Node.code?).map f =
      (nodes.filterMap Node.code?).map f := by
  induction nodes generalizing number with
  | nil => rfl
  | cons node rest ih =>
    rw [renumbered, List.filterMap_cons, List.filterMap_cons]
    cases node <;> simp [Node.onLine, Node.code?, hf, ih]

/-- Of nodes that are no markers, there is nothing to strip when the lines are counted anew. -/
theorem unmarked_renumbered (number : Nat) {nodes : List Node} (h : unmarked nodes = nodes) :
    unmarked (renumbered number nodes) = renumbered number nodes := by
  rw [unmarked, List.filter_eq_self] at h ⊢
  induction nodes generalizing number with
  | nil =>
    intro node hmem
    cases hmem
  | cons node rest ih =>
    rw [List.forall_mem_cons] at h
    rw [renumbered, List.forall_mem_cons, Node.isMarker_onLine]
    exact ⟨h.1, ih _ h.2⟩

/-- The blocks are no markers: none of them is stripped. -/
theorem codeBlocks_unmarked (nodes : List Node) :
    (unmarked nodes).filterMap Node.code? = nodes.filterMap Node.code? := by
  induction nodes with
  | nil => rfl
  | cons node rest ih =>
    rw [List.filterMap_cons, ← ih]
    cases node <;> simp [List.filterMap_cons, Node.code?]

/-- Where there is nothing to strip, there are no markers. -/
theorem markers_eq_nil {doc : Document} (h : doc.strip = doc) : doc.markers = [] := by
  rw [markers, List.filterMap_eq_nil_iff]
  intro node hmem
  rw [← h, nodes_strip, unmarked, List.mem_filter] at hmem
  cases node with
  | marker marker raw => cases hmem.2
  | text raw | code block => rfl

/-- A document without its markers is read again with the lines counted anew. -/
theorem parse_render_of_wellFormed {doc : Document} (h : doc.WellFormed) :
    parse doc.strip.render = ⟨renumbered 1 (unmarked doc.nodes)⟩ := by
  have hlines : Text.AreLines ((renumbered 1 (unmarked doc.nodes)).flatMap Node.lines) := by
    rw [lines_renumbered]
    exact areLines_unmarked h.lines
  have hagain : WellFormed ⟨renumbered 1 (unmarked doc.nodes)⟩ :=
    ⟨hlines, arranged_renumbered (arranged_unmarked h.arranged) 1, numbered_renumbered 1 _⟩
  have hrender : doc.strip.render = render ⟨renumbered 1 (unmarked doc.nodes)⟩ := by
    rw [render, render, raw_renumbered, nodes_strip]
  rw [hrender, parse_render hagain]

/-- **Stripping is complete and stable.** A text that is read, stripped and rendered is read again
to the nodes that were left, with the lines counted anew: there is no marker among them, the blocks
hold what they held, and nothing is left to strip. -/
theorem parse_render_strip (source : String) :
    (parse (parse source).strip.render).nodes = renumbered 1 (parse source).strip.nodes ∧
      (parse (parse source).strip.render).markers = [] ∧
      (parse (parse source).strip.render).codeBlocks.map
          (fun block => (block.value, block.fence.info, block.isClosed)) =
        (parse source).codeBlocks.map
          (fun block => (block.value, block.fence.info, block.isClosed)) ∧
      (parse (parse source).strip.render).strip = parse (parse source).strip.render := by
  have hread := parse_render_of_wellFormed (wellFormed_parse source)
  have hstable : (parse (parse source).strip.render).strip =
      parse (parse source).strip.render := by
    rw [hread]
    exact congrArg Document.mk (unmarked_renumbered 1 (unmarked_unmarked _))
  refine ⟨?_, markers_eq_nil hstable, ?_, hstable⟩
  · rw [hread, nodes_strip]
  · rw [hread, codeBlocks, map_codeBlocks_renumbered (fun _ _ => rfl), codeBlocks_unmarked,
      codeBlocks]

/-- A text with two markers after its block, of which the blank line behind them is left. -/
example :
    (parse "```js\n1\n```\n\n✅ a\n\n❌ b\n\n~~~\n2").strip.render = "```js\n1\n```\n\n~~~\n2" ∧
      (parse "```js\n1\n```\n\n~~~\n2").codeBlocks.map (·.line) = [1, 5] := by
  decide +kernel

end Document

end Doctest
