import Doctest.Proofs.Script.Parsing.Descent
import Doctest.Proofs.Script.Parsing.Returns
import Doctest.Proofs.Script.Scanning

/-!
# How programs are read

The statements of a source text settle as well: all of its tokens but the end are the program by the
grammar, or the parser fails at one of them.
-/

namespace Doctest.Script

/-- The tokens of a text are others and the end. -/
theorem exists_stop {source : String} {found : List Token} (h : tokens source = .ok found) :
    ∃ own stop, found = own ++ [stop] ∧ (∀ token ∈ own, token.kind ≠ .eof) ∧ stop.kind = .eof := by
  obtain ⟨kinds, hscans, hkinds⟩ := exists_scans h
  obtain ⟨own, behind, rfl, hown, hbehind⟩ := List.map_eq_append_iff.mp hkinds
  obtain ⟨stop, rfl, hstop⟩ := List.map_eq_singleton_iff.mp hbehind
  refine ⟨own, stop, rfl, fun token hmem heof => ?_, hstop⟩
  have hin : TokenKind.eof ∈ own.map Token.kind := heof ▸ List.mem_map_of_mem hmem
  exact hscans.eof_not_mem (hown ▸ hin)

theorem ended_of_tokens {source : String} {found : List Token} (h : tokens source = .ok found) :
    Ended found := by
  obtain ⟨own, stop, rfl, -, hstop⟩ := exists_stop h
  exact ⟨stop, by simp, hstop⟩

namespace Parser

variable {apart : List Token → Stmt → List Token → Prop}

/-- The statements of a program settle, and they are taken up to the end. -/
theorem programStatements_settles (hapart : SeparatedBy apart) {tokens : List Token}
    {fuel fuel' levels levels' : Nat} (hroom : Room 9 tokens.length tokens levels levels')
    (hfuel : tokens.length ≤ fuel) (hfuel' : tokens.length ≤ fuel') :
    Settles (programStatements fuel levels) (programStatements fuel' levels') [] tokens
      fun own rest stmts => Forms apart own (.spaced stmts) ∧
        ∃ token ∈ rest.head?, token.kind = .eof := by
  have hsome {fuel : Nat} {tokens : List Token} (hended : Ended tokens)
      (hfuel : tokens.length ≤ fuel) : ∃ less, fuel = less + 1 := by
    obtain ⟨first, more, rfl⟩ := hended.exists_cons
    rw [List.length_cons] at hfuel
    exact ⟨fuel - 1, by omega⟩
  induction fuel generalizing tokens fuel' with
  | zero =>
    obtain ⟨less, hless⟩ := hsome hroom.ended hfuel
    cases hless
  | succ fuel ih =>
    obtain ⟨fuel', rfl⟩ := hsome hroom.ended hfuel'
    unfold programStatements
    refine .skipSeparators hroom.ended ?_
    rintro gap more rfl hgap - hended
    refine .kind hended ?_
    rintro token more rfl
    split
    · next heof =>
      refine .pure ⟨?_, token, rfl, heof⟩
      have hnone : Forms apart (gap ++ ([] ++ [])) (.spaced []) := .spaced hgap .noStmts .nil
      simpa using hnone
    have hstatement := (descends hapart _).statement false (hroom.rest hended (by simp))
    refine .bind hended hstatement ?_
    rintro own rest stmt htokens hended hstmt
    have hlong := List.length_pos_of_ne_nil (hstmt.leading trivial).ne_nil
    rw [htokens] at hroom hfuel hfuel'
    refine settles_others _ hapart hgap hstmt hended fun {others} hothers hlength => ?_
    have hinner := hroom.rest hothers (by grind)
    refine ih ⟨hothers, le_rfl, hinner.left, hinner.right⟩ ?_ ?_
    · grind
    · grind

/-- With enough levels, all tokens of a text but the end are taken, or the parser fails at one of
them. -/
theorem settles_of_tokens (hapart : SeparatedBy apart) {source : String} {found : List Token}
    (h : tokens source = .ok found) {fuel fuel' levels levels' : Nat} (hfuel : found.length ≤ fuel)
    (hfuel' : found.length ≤ fuel') (hlevels : 10 * found.length + 9 ≤ levels)
    (hlevels' : 10 * found.length + 9 ≤ levels') :
    Settles (programStatements fuel levels) (programStatements fuel' levels') [] found
      fun own rest program => Forms apart own (.spaced program) ∧
        ∃ stop, rest = [stop] ∧ stop.kind = .eof := by
  obtain ⟨own, stop, rfl, hown, hstop⟩ := exists_stop h
  have hroom : Room 9 (own ++ [stop]).length (own ++ [stop]) levels levels' :=
    ⟨ended_of_tokens h, le_rfl, hlevels, hlevels'⟩
  refine .rest (programStatements_settles hapart hroom hfuel hfuel') ?_
  rintro taken rest program hsplit ⟨hforms, last, hlast, heof⟩
  refine ⟨hforms, stop, ?_, hstop⟩
  obtain ⟨more, rfl⟩ := List.head?_eq_some_iff.mp hlast
  rcases List.eq_nil_or_concat' more with rfl | ⟨front, token, rfl⟩
  · obtain ⟨-, hsame⟩ := List.append_inj' hsplit rfl
    exact hsame.symm
  · -- The end would be among the tokens before the last one.
    rw [← List.cons_append, ← List.append_assoc] at hsplit
    obtain ⟨rfl, -⟩ := List.append_inj' hsplit rfl
    exact absurd heof (hown last (by simp))

/-- All tokens of a text that is read are the program, but for the end. -/
theorem forms_of_parse (hapart : SeparatedBy apart) {source : String} {program : List Stmt}
    (h : parse source = .ok program) :
    ∃ own stop, tokens source = .ok (own ++ [stop]) ∧ stop.kind = .eof ∧
      Forms apart own (.spaced program) := by
  obtain ⟨found, last, htokens, hrun⟩ := exists_of_parse h
  have hsettles := settles_of_tokens hapart htokens (Nat.le_succ _) (Nat.le_succ _)
    (Nat.le_succ _) (Nat.le_succ _)
  cases hsettles with
  | fails _ _ hruns =>
    have hfails := (hruns ⟨0, 0⟩ []).1
    rw [List.append_nil] at hfails
    cases hrun.symm.trans hfails
  | @takes own rest _ hsplit hends hresult hruns =>
    have htakes := (hruns ⟨0, 0⟩ rest (.refl rest)).1
    rw [← hsplit] at htakes
    cases hrun.symm.trans htakes
    obtain ⟨hforms, stop, rfl, hstop⟩ := hresult
    exact ⟨own, stop, hsplit ▸ htokens, hstop, hforms⟩

end Parser

end Doctest.Script
