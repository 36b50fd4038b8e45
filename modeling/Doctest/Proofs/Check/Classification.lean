import Doctest.Check.Block
import Doctest.Proofs.Text.Lines
import Mathlib.Data.List.Forall2

/-!
# What the lines of a block are

Eight texts tell what a line is, and no line begins with two of them. What stands behind such a text
is the payload of the line, and a line without one is an output.
-/

namespace Doctest

namespace BlockLine

variable {line : List Char}

/-- How the lines begin that are no outputs. -/
def openings : List (List Char) :=
  continuationOpening.toList :: StatementKind.marked.map (·.opening.toList)

/-- What a line is, told by how it begins. -/
inductive Classified : List Char → BlockLine → Prop
  | marked {kind : StatementKind} (hkind : kind ∈ StatementKind.marked) (payload : List Char) :
    Classified (kind.opening.toList ++ payload) (.statement ⟨kind, String.ofList payload⟩)
  | continuation (rest : List Char) :
    Classified (continuationOpening.toList ++ rest) (.continuation (String.ofList rest))
  | output {line : List Char} (h : ∀ opening ∈ openings, ¬ opening <+: line) :
    Classified line (.statement ⟨.output, String.ofList line⟩)

/-- No line begins with two of the texts. -/
theorem openings_pairwise (line : List Char) :
    openings.Pairwise fun first second => ¬ (first <+: line ∧ second <+: line) := by
  have hapart : openings.Pairwise fun first second => ¬ (first <+: second ∨ second <+: first) := by
    decide
  refine hapart.imp fun {first second} hneither hboth => hneither ?_
  exact List.prefix_or_prefix_of_prefix hboth.1 hboth.2

theorem isPrefixOf?_eq_none {front line : List Char} (h : ¬ front <+: line) :
    front.isPrefixOf? line = none := by
  rwa [← Option.not_isSome_iff_eq_none, List.isSome_isPrefixOf?_eq_isPrefixOf,
    List.isPrefixOf_iff_prefix]

theorem marked?_eq_none {kinds : List StatementKind}
    (h : ∀ kind ∈ kinds, ¬ kind.opening.toList <+: line) : marked? line kinds = none := by
  induction kinds with
  | nil => rfl
  | cons kind kinds ih =>
    obtain ⟨hkind, hothers⟩ := List.forall_mem_cons.mp h
    rw [marked?, isPrefixOf?_eq_none hkind]
    exact ih hothers

/-- Of some kinds, either a line begins with the text of one, or with none of their texts. -/
theorem marked?_cases (line : List Char) (kinds : List StatementKind) :
    (∃ kind ∈ kinds, ∃ payload, line = kind.opening.toList ++ payload ∧
      marked? line kinds = some ⟨kind, String.ofList payload⟩) ∨
    ∀ kind ∈ kinds, ¬ kind.opening.toList <+: line := by
  induction kinds with
  | nil => exact .inr nofun
  | cons kind kinds ih =>
    by_cases hkind : kind.opening.toList <+: line
    · obtain ⟨payload, rfl⟩ := hkind
      refine .inl ⟨kind, List.mem_cons_self, payload, rfl, ?_⟩
      rw [marked?, List.isPrefixOf?_eq_some_iff_append_eq.mpr rfl]
    · rcases ih with ⟨other, hmem, payload, hline, hmarked⟩ | hnone
      · refine .inl ⟨other, List.mem_cons_of_mem _ hmem, payload, hline, ?_⟩
        rw [marked?, isPrefixOf?_eq_none hkind]
        exact hmarked
      · exact .inr (List.forall_mem_cons.mpr ⟨hkind, hnone⟩)

/-- A line is what its beginning tells. -/
theorem classified_ofLine (line : List Char) : Classified line (ofLine line) := by
  rcases marked?_cases line StatementKind.marked with ⟨kind, hmem, payload, rfl, hmarked⟩ | hnone
  · rw [ofLine, hmarked]
    exact .marked hmem payload
  rw [ofLine, marked?_eq_none hnone]
  by_cases hcontinued : continuationOpening.toList <+: line
  · obtain ⟨rest, rfl⟩ := hcontinued
    dsimp only
    rw [List.isPrefixOf?_eq_some_iff_append_eq.mpr rfl]
    exact .continuation rest
  · dsimp only
    rw [isPrefixOf?_eq_none hcontinued]
    refine .output (List.forall_mem_cons.mpr ⟨hcontinued, fun opening hmem => ?_⟩)
    obtain ⟨kind, hkind, rfl⟩ := List.mem_map.mp hmem
    exact hnone kind hkind

end BlockLine

namespace Block

/-- A line without one carriage return at its end, if there is one. -/
inductive Bare : List Char → List Char → Prop
  | returned (line : List Char) : Bare (line ++ ['\r']) line
  | plain {line : List Char} (h : line.getLast? ≠ some '\r') : Bare line line

theorem bare_dropReturn (line : List Char) : Bare line (Text.dropReturn line) := by
  by_cases hlast : line.getLast? = some '\r'
  · obtain ⟨front, rfl⟩ := List.getLast?_eq_some_iff.mp hlast
    have hdrop : Text.dropReturn (front ++ ['\r']) = front := by simp [Text.dropReturn]
    rw [hdrop]
    exact .returned front
  · rw [Text.dropReturn_of_getLast? hlast]
    exact .plain hlast

/-- The lines of a block: the pieces between its line feeds, each of them classified without a
carriage return at its end. -/
def Lined (code : String) (ls : List BlockLine) : Prop :=
  ∃ raws : List (List Char), raws ≠ [] ∧ (∀ raw ∈ raws, '\n' ∉ raw) ∧
    ['\n'].intercalate raws = code.toList ∧
    List.Forall₂ (fun raw line => ∃ bare, Bare raw bare ∧ BlockLine.Classified bare line) raws ls

theorem lined_lines (code : String) : Lined code (lines code) := by
  refine ⟨Text.splitLines code.toList, Text.splitLines_ne_nil _,
    fun _ => Text.not_mem_of_mem_splitLines, Text.intercalate_splitLines _, ?_⟩
  rw [lines, List.forall₂_map_right_iff, List.forall₂_same]
  exact fun raw _ => ⟨_, bare_dropReturn raw, BlockLine.classified_ofLine _⟩

end Block

end Doctest
