import Doctest.Check.Block
import Doctest.Proofs.Text.Lines

/-!
# The statements that lines make

A continuation changes the payload of the statement before it and nothing else. The kinds of the
statements are therefore those of the lines that are no continuations, and the lines of two blocks
one after the other make the statements of both.
-/

namespace Doctest

/-- The kind of the statement that a line begins. -/
def BlockLine.kind? : BlockLine → Option StatementKind
  | .statement found => some found.kind
  | .continuation _ => none

namespace Block

/-- The kinds of the statements that some lines begin, in order. -/
def kinds (ls : List BlockLine) : List StatementKind :=
  ls.filterMap BlockLine.kind?

/-- A line adds the statement that it begins, if it begins one. -/
theorem map_kind_addLine {before after : List Statement} {line : BlockLine}
    (h : addLine before line = .ok after) :
    after.map Statement.kind = line.kind?.toList ++ before.map Statement.kind := by
  cases line with
  | statement statement =>
    cases h
    rfl
  | continuation rest =>
    cases before with
    | nil => cases h
    | cons last earlier =>
      simp only [addLine] at h
      split at h
      · cases h
        rfl
      · cases h

/-- Lines add the statements that they begin, the last of them in front. -/
theorem map_kind_foldlM {before after : List Statement} {ls : List BlockLine}
    (h : ls.foldlM addLine before = .ok after) :
    after.map Statement.kind = (kinds ls).reverse ++ before.map Statement.kind := by
  induction ls generalizing before with
  | nil =>
    cases h
    rfl
  | cons line ls ih =>
    rw [List.foldlM_cons] at h
    cases hline : addLine before line with
    | error fault =>
      rw [hline] at h
      cases h
    | ok next =>
      rw [hline] at h
      rw [ih h, map_kind_addLine hline]
      cases line <;> simp [kinds, List.filterMap_cons, BlockLine.kind?]

/-- The lines of a block make its statements, the last of them in front. -/
theorem statements_eq_ok_iff {code : String} {found : List Statement} :
    statements code = .ok found ↔ (lines code).foldlM addLine [] = .ok found.reverse := by
  unfold statements
  cases (lines code).foldlM addLine [] with
  | error fault => simp [Except.map]
  | ok before => simp [Except.map, List.reverse_eq_iff]

/-- The statements of a block are of the kinds of its lines. -/
theorem map_kind_statements {code : String} {found : List Statement}
    (h : statements code = .ok found) : found.map Statement.kind = kinds (lines code) := by
  have hkinds := map_kind_foldlM (statements_eq_ok_iff.mp h)
  simpa using hkinds

/-- After a statement, a line does not depend on what came before that statement. -/
theorem addLine_append {front : List Statement} (hfront : front ≠ []) (before : List Statement)
    (line : BlockLine) :
    addLine (front ++ before) line = (addLine front line).map (· ++ before) := by
  cases line with
  | statement statement => rfl
  | continuation rest =>
    obtain ⟨last, earlier, rfl⟩ := List.exists_cons_of_ne_nil hfront
    simp only [List.cons_append, addLine]
    split <;> rfl

theorem ne_nil_of_addLine {before after : List Statement} {line : BlockLine}
    (h : addLine before line = .ok after) : after ≠ [] := by
  cases line with
  | statement statement =>
    cases h
    simp
  | continuation rest =>
    cases before with
    | nil => cases h
    | cons last earlier =>
      simp only [addLine] at h
      split at h
      · cases h
        simp
      · cases h

/-- After a statement, lines do not depend on what came before that statement. -/
theorem foldlM_addLine_append {front : List Statement} (hfront : front ≠ [])
    (before : List Statement) (ls : List BlockLine) :
    ls.foldlM addLine (front ++ before) = (ls.foldlM addLine front).map (· ++ before) := by
  induction ls generalizing front with
  | nil => rfl
  | cons line ls ih =>
    rw [List.foldlM_cons, List.foldlM_cons, addLine_append hfront]
    cases hline : addLine front line with
    | error fault => rfl
    | ok next => exact ih (ne_nil_of_addLine hline)

/-- Lines that make statements of their own make the same ones after others. -/
theorem foldlM_addLine_of_eq_ok {ls : List BlockLine} {found : List Statement}
    (h : ls.foldlM addLine [] = .ok found) (before : List Statement) :
    ls.foldlM addLine before = .ok (found ++ before) := by
  cases ls with
  | nil =>
    cases h
    rfl
  | cons line ls =>
    cases line with
    | continuation rest => cases h
    | statement statement =>
      have happend := foldlM_addLine_append (List.cons_ne_nil statement []) before ls
      change ls.foldlM addLine [statement] = .ok found at h
      rw [h] at happend
      exact happend

/-- The lines of two blocks that are put together are those of the first and of the second. -/
theorem lines_append (first second : String) :
    lines (first ++ "\n" ++ second) = lines first ++ lines second := by
  have hfeed : (first ++ "\n" ++ second).toList = first.toList ++ '\n' :: second.toList := by simp
  rw [lines, hfeed, Text.splitLines_append_feed, List.map_append]
  rfl

/-- Two blocks that are put together have the statements of the first and of the second. -/
theorem statements_append {first second : String} {before after : List Statement}
    (hfirst : statements first = .ok before) (hsecond : statements second = .ok after) :
    statements (first ++ "\n" ++ second) = .ok (before ++ after) := by
  rw [statements_eq_ok_iff] at hfirst hsecond ⊢
  have hmore := foldlM_addLine_of_eq_ok hsecond before.reverse
  rw [lines_append, List.foldlM_append, hfirst, List.reverse_append]
  exact hmore

end Block

end Doctest
