import Doctest.Proofs.Script.Parsing.Programs

/-!
# What separates statements

In every list of statements of a tree, a separator stands between two statements, or the first one
ends in a closing brace. The one exception is an `if`: behind it no separator is asked for, also
where its last branch is a statement without braces.
-/

namespace Doctest.Script

/-- A separator stands behind a statement, or it ends in a closing brace. -/
def Parted (own : List Token) (_ : Stmt) (gap : List Token) : Prop :=
  gap ≠ [] ∨ ∃ last ∈ own.getLast?, last.kind = .symbol .rbrace

/-- Whether a statement is an `if`. -/
def Stmt.isBranch : Stmt → Bool
  | .branch .. => true
  | _ => false

/-- A separator stands behind a statement, or it ends in a closing brace, or it is an `if`. -/
def PartedUnlessBranch (own : List Token) (stmt : Stmt) (gap : List Token) : Prop :=
  Parted own stmt gap ∨ stmt.isBranch = true

variable {apart : List Token → Stmt → List Token → Prop} {own gap : List Token}

/-- A block ends in its closing brace. -/
theorem Forms.getLast?_block {stmts : List Stmt} {span : Span}
    (h : Forms apart own (.stmt (.block stmts span))) :
    ∃ last ∈ own.getLast?, last.kind = .symbol .rbrace := by
  cases h with
  | block h =>
    cases h with
    | @enclosed first last inner _ _ _ hpartner _ _ hlast =>
      cases hpartner
      refine ⟨last, ?_, hlast⟩
      rw [← List.cons_append, List.getLast?_concat]
      rfl

theorem separatedBy_partedUnlessBranch : Parser.SeparatedBy PartedUnlessBranch := by
  intro own stmt gap hforms _ hneeds
  cases stmt with
  | expr | declare | throwing | returning => exact .inl (.inl (hneeds rfl))
  | block => exact .inl (.inr hforms.getLast?_block)
  | branch => exact .inr rfl

/-- **Statements are separated.** Every text that is read is cut into statements, on all levels of
its tree, between which a separator stands unless the first one ends in a closing brace or is an
`if`. -/
theorem statements_separated {source : String} {program : List Stmt}
    (h : parse source = .ok program) :
    ∃ own stop, tokens source = .ok (own ++ [stop]) ∧ stop.kind = .eof ∧
      Forms PartedUnlessBranch own (.spaced program) :=
  Parser.forms_of_parse separatedBy_partedUnlessBranch h

theorem statements_separated_sample :
    ∃ program, parse "x => \x7b if (a) \x7b b \x7d c; d \x7d\ne" = .ok program ∧
      program.length = 2 ∧ ∃ own stop,
        tokens "x => \x7b if (a) \x7b b \x7d c; d \x7d\ne" = .ok (own ++ [stop]) ∧
        stop.kind = .eof ∧ Forms PartedUnlessBranch own (.spaced program) := by
  have hboth :
      (parse "x => \x7b if (a) \x7b b \x7d c; d \x7d\ne").toOption.map List.length = some 2 := by
    decide +kernel
  obtain ⟨program, hparse, hlength⟩ := Option.map_eq_some_iff.mp hboth
  have hread : parse "x => \x7b if (a) \x7b b \x7d c; d \x7d\ne" = .ok program := by
    generalize parse "x => \x7b if (a) \x7b b \x7d c; d \x7d\ne" = result at hparse
    cases result with
    | error => cases hparse
    | ok => exact congrArg Except.ok (Option.some.inj hparse)
  exact ⟨program, hread, hlength, statements_separated hread⟩

/-- Behind a branch without braces the next statement may follow at once. -/
theorem unparted_branch :
    (parse "if (a) b c").isOk = true ∧ ∀ program own stop, parse "if (a) b c" = .ok program →
      tokens "if (a) b c" = .ok (own ++ [stop]) → ¬ Forms Parted own (.spaced program) := by
  refine ⟨by decide +kernel, fun program own stop hparse htokens hforms => ?_⟩
  have hplain : ∀ token ∈ own, token.kind.separates = false ∧ token.kind ≠ .symbol .rbrace := by
    have hall : (tokens "if (a) b c").toOption.any fun found => found.all fun token =>
        !token.kind.separates && decide (token.kind ≠ .symbol .rbrace) := by decide +kernel
    intro token hmem
    rw [htokens] at hall
    have htoken := List.all_eq_true.mp hall token (List.mem_append_left _ hmem)
    simpa using htoken
  have hlength : program.length = 2 := by
    have hboth : (parse "if (a) b c").toOption.map List.length = some 2 := by decide +kernel
    rw [hparse] at hboth
    exact Option.some.inj hboth
  obtain ⟨first, second, rfl⟩ := List.length_eq_two.mp hlength
  cases hforms with
  | spaced hlead hinner hbehind =>
  cases hinner with
  | @nextStmt front between rest _ _ _ _ hgap hparted _ =>
  rcases hparted with hne | ⟨last, hlast, hbrace⟩
  · obtain ⟨token, more, rfl⟩ := List.exists_cons_of_ne_nil hne
    have hseparates := hgap token List.mem_cons_self
    rw [(hplain token (by simp)).1] at hseparates
    cases hseparates
  · have hmem := List.mem_of_getLast? hlast
    exact (hplain last (by simp [hmem])).2 hbrace

end Doctest.Script
