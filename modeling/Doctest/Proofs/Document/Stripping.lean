import Mathlib.Data.List.Flatten
import Doctest.Document.Edit
import Doctest.Proofs.Document.WellFormed

/-!
# Stripping markers

Without its markers, a document still has the lines of a text, and its nodes are arranged as they
are read. Only the numbers of the lines are others.
-/

namespace Doctest.Document

/-- The nodes that are no markers. -/
def unmarked (nodes : List Node) : List Node :=
  nodes.filter (!Node.isMarker ·)

theorem nodes_strip (doc : Document) : doc.strip.nodes = unmarked doc.nodes := rfl

@[simp] theorem unmarked_nil : unmarked [] = [] := rfl

@[simp] theorem unmarked_text (raw : List Char) (rest : List Node) :
    unmarked (.text raw :: rest) = .text raw :: unmarked rest := rfl

@[simp] theorem unmarked_code (block : CodeBlock) (rest : List Node) :
    unmarked (.code block :: rest) = .code block :: unmarked rest := rfl

@[simp] theorem unmarked_marker (marker : Marker) (raw : List Char) (rest : List Node) :
    unmarked (.marker marker raw :: rest) = unmarked rest := rfl

@[simp] theorem unmarked_unmarked (nodes : List Node) :
    unmarked (unmarked nodes) = unmarked nodes := by
  simp [unmarked]

/-- The lines of the nodes that are left are lines of a text. -/
theorem areLines_unmarked {nodes : List Node}
    (hlines : Text.AreLines (nodes.flatMap Node.lines)) :
    Text.AreLines ((unmarked nodes).flatMap Node.lines) :=
  hlines.sublist (List.filter_sublist.flatMap Node.lines)

/-- The nodes that are left are arranged as they are read. -/
theorem arranged_unmarked {marks : Bool} {nodes : List Node} (harranged : Arranged marks nodes) :
    Arranged marks (unmarked nodes) := by
  induction nodes generalizing marks with
  | nil => trivial
  | cons node rest ih =>
    cases node with
    | marker marker raw =>
      obtain ⟨rfl, -, -, hrest⟩ := harranged
      exact ih hrest
    | code block =>
      obtain ⟨hblock, hlast, hrest⟩ := harranged
      refine ⟨hblock, ?_, ih hrest⟩
      rcases hlast with hclosed | rfl
      · exact .inl hclosed
      · exact .inr rfl
    | text raw =>
      obtain ⟨hne, hopen, hmarker, hnext, hrest⟩ := harranged
      rw [unmarked_text]
      refine ⟨hne, hopen, hmarker, fun next => ?_, ih hrest⟩
      cases rest with
      | nil => simp
      | cons node rest =>
        cases node with
        | text next => exact absurd rfl (hnext next)
        | code block =>
          rw [unmarked_code]
          simp
        | marker marker raw => simp [Arranged] at hrest

end Doctest.Document
