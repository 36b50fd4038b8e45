import Doctest.Document.Parse
import Doctest.Proofs.Document.Fence

/-!
# Well-formed documents

A document is well formed if its nodes are such as a text is read to. The conditions are on the
lines of each node, on what stands directly before it, and on the number of lines before it.
-/

namespace Doctest

/-- The lines of a block from its opening to its closing fence. -/
def CodeBlock.lines (block : CodeBlock) : List (List Char) :=
  block.opening :: block.body ++ block.closing.toList

/-- A block whose lines are read to it: the first opens its fence, the last closes it, and none
between them does. -/
structure CodeBlock.WellFormed (block : CodeBlock) : Prop where
  opens : Fence.open? (Text.dropLineEnd block.opening) = some block.fence
  staysOpen : ∀ line ∈ block.body, block.fence.isClosedBy (Text.dropLineEnd line) = false
  closes : ∀ line ∈ block.closing, block.fence.isClosedBy (Text.dropLineEnd line) = true

/-- The lines of a node. -/
def Node.lines : Node → List (List Char)
  | .text raw => Text.lines raw
  | .code block => block.lines
  | .marker _ raw => Text.lines raw

namespace Document

/-- The marker that the first two of some lines make: one line is blank, and the next is the line
of a marker. -/
def markerAhead? : List (List Char) → Option Marker
  | blank :: line :: _ =>
    if Text.allBlank (Text.dropLineEnd blank) then Marker.ofLine? (Text.dropLineEnd line) else none
  | _ => none

/-- Nodes that may stand in this order. `marks` tells whether a closed block or a marker comes
directly before them. -/
def Arranged : Bool → List Node → Prop
  | _, [] => True
  | marks, .text raw :: rest =>
    raw ≠ [] ∧ (∀ line ∈ Text.lines raw, Fence.open? (Text.dropLineEnd line) = none) ∧
      (marks = true → markerAhead? (Text.lines raw) = none) ∧
      (∀ next, rest.head? ≠ some (.text next)) ∧ Arranged false rest
  | _, .code block :: rest =>
    block.WellFormed ∧ (block.isClosed = true ∨ rest = []) ∧ Arranged block.isClosed rest
  | marks, .marker marker raw :: rest =>
    marks = true ∧ (Text.lines raw).length = 2 ∧ markerAhead? (Text.lines raw) = some marker ∧
      Arranged true rest

/-- Nodes whose blocks have the numbers of their first lines, if `number` is that of the first
line of all. -/
def Numbered : Nat → List Node → Prop
  | _, [] => True
  | number, node :: rest =>
    (∀ block ∈ node.code?, block.line = number) ∧ Numbered (number + node.lines.length) rest

/-- The lines of a document. -/
def lines (doc : Document) : List (List Char) :=
  doc.nodes.flatMap Node.lines

/-- A document that a text can be read to: its lines are the lines of a text, its nodes are
arranged as they are read, and its blocks have the numbers of their lines. -/
structure WellFormed (doc : Document) : Prop where
  lines : Text.AreLines doc.lines
  arranged : Arranged false doc.nodes
  numbered : Numbered 1 doc.nodes

end Document

@[simp] theorem Node.lines_text (raw : List Char) : (Node.text raw).lines = Text.lines raw := rfl

@[simp] theorem Node.lines_code (block : CodeBlock) : (Node.code block).lines = block.lines := rfl

@[simp] theorem Node.lines_marker (marker : Marker) (raw : List Char) :
    (Node.marker marker raw).lines = Text.lines raw := rfl

@[simp] theorem Node.raw_text (raw : List Char) : (Node.text raw).raw = raw := rfl

@[simp] theorem Node.raw_code (block : CodeBlock) : (Node.code block).raw = block.raw := rfl

@[simp] theorem Node.raw_marker (marker : Marker) (raw : List Char) :
    (Node.marker marker raw).raw = raw := rfl

/-- The lines of a node are its characters. -/
@[simp] theorem Node.flatten_lines (node : Node) : node.lines.flatten = node.raw := by
  cases node with
  | text raw => exact Text.flatten_lines raw
  | code block =>
    cases hclosing : block.closing <;>
      simp [Node.lines, Node.raw, CodeBlock.lines, CodeBlock.raw, hclosing]
  | marker marker raw => exact Text.flatten_lines raw

/-- The lines of some nodes are their characters. -/
theorem Node.flatten_flatMap_lines (nodes : List Node) :
    (nodes.flatMap Node.lines).flatten = nodes.flatMap Node.raw := by
  induction nodes with
  | nil => rfl
  | cons node rest ih => simp [ih]

namespace Document

@[simp] theorem toList_render (doc : Document) : doc.render.toList = doc.lines.flatten := by
  rw [render, String.toList_ofList, lines, Node.flatten_flatMap_lines]

/-- A document whose lines are lines of a text is rendered to these lines. -/
theorem lines_render {doc : Document} (hlines : Text.AreLines doc.lines) :
    Text.lines doc.render.toList = doc.lines := by
  rw [toList_render, Text.lines_flatten hlines]

@[simp] theorem markerAhead?_nil : markerAhead? [] = none := rfl

@[simp] theorem markerAhead?_singleton (line : List Char) : markerAhead? [line] = none := rfl

/-- A marker is ahead exactly if a blank line and the line of that marker are. -/
theorem markerAhead?_eq_some {ls : List (List Char)} {marker : Marker} :
    markerAhead? ls = some marker ↔
      ∃ blank line rest, ls = blank :: line :: rest ∧
        Text.allBlank (Text.dropLineEnd blank) = true ∧
        Marker.ofLine? (Text.dropLineEnd line) = some marker := by
  constructor
  · intro h
    unfold markerAhead? at h
    split at h
    case h_1 blank line rest =>
      split_ifs at h with hblank
      exact ⟨blank, line, rest, rfl, hblank, h⟩
    case h_2 => cases h
  · rintro ⟨blank, line, rest, rfl, hblank, hline⟩
    simpa [markerAhead?, hblank] using hline

/-- Lines before others have no marker ahead if there is none in all of them. -/
theorem markerAhead?_of_append {front back : List (List Char)}
    (h : markerAhead? (front ++ back) = none) : markerAhead? front = none := by
  cases front with
  | nil => rfl
  | cons blank front =>
    cases front with
    | nil => rfl
    | cons line front => exact h

/-- Lines that open a fence make no marker with the lines before or after them. -/
theorem markerAhead?_append_of_open? {front back : List (List Char)} {line : List Char}
    {fence : Fence} (hfront : markerAhead? front = none)
    (hopen : Fence.open? (Text.dropLineEnd line) = some fence) :
    markerAhead? (front ++ line :: back) = none := by
  match front with
  | [] =>
    cases back with
    | nil => rfl
    | cons second back => simp [markerAhead?, Fence.allBlank_of_open? hopen]
  | [blank] => simp [markerAhead?, Fence.ofLine?_of_open? hopen]
  | blank :: second :: front => exact hfront

end Document

end Doctest
