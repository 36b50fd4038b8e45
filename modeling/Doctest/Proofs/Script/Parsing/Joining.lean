import Doctest.Proofs.Script.Parsing.Returns
import Doctest.Proofs.Script.Parsing.Walk
import Doctest.Proofs.Script.Scanning

/-!
# Texts that are joined

A text and another one with a semicolon on a line of its own between them have the statements of
both, up to their spans. For that the first one must not end within a block comment, which would go
on behind the seam.
-/

namespace Doctest.Script

open TokenKind (separates)

variable {more : Option (List TokenKind)} {fuel levels : Nat} {c d last : Cursor}
  {stmts : List Stmt}

/-! ### Statements up to the end -/

/-- The cursor behind the separators just ahead. -/
abbrev Cursor.pastSeparators (cursor : Cursor) : Cursor :=
  cursor.skipWhile separates

theorem programStatements_of_eof (h : c.pastSeparators.kindAt 0 = .eof) :
    programStatements (fuel + 1) levels c = .ok ([], c.pastSeparators) := by
  rw [programStatements, Parser.bind_skipSeparators_apply, Parser.bind_kind_apply, h]
  rfl

theorem programStatements_of_ne_eof (h : c.pastSeparators.kindAt 0 ≠ .eof) :
    programStatements (fuel + 1) levels c =
      (do
        let stmt ← statement levels false
        if stmt.needsSeparator then Parser.separator
        return stmt :: (← programStatements fuel levels) : Parser (List Stmt))
          c.pastSeparators := by
  rw [programStatements, Parser.bind_skipSeparators_apply, Parser.bind_kind_apply]
  unfold Cursor.pastSeparators at h ⊢
  generalize (c.skipWhile separates).kindAt 0 = k at h
  cases k with
  | eof => exact absurd rfl h
  | _ => rfl

/-- Behind separators both see the same tokens, or the first one sees the end. -/
def Joined (more : Option (List TokenKind)) (c d : Cursor) : Prop :=
  Beside more c.pastSeparators.kinds d.pastSeparators.kinds ∧ c.pastSeparators.kindAt 0 ≠ .eof ∨
    c.pastSeparators.kinds = [.eof] ∧ d.pastSeparators.kinds = behind more

theorem Beside.joined (h : Beside more c.kinds d.kinds) : Joined more c d := by
  have hpassed := h.separators
  rwa [← Cursor.kinds_skipWhile, ← Cursor.kinds_skipWhile, ← Cursor.kindAt_eq] at hpassed

theorem pastSeparators_advance {kind : TokenKind} (hkind : d.kindAt 0 = kind)
    (hseparates : kind.separates = true) :
    d.advance.pastSeparators.kinds = d.pastSeparators.kinds := by
  have hne : kind ≠ .eof := by
    rintro rfl
    cases hseparates
  obtain ⟨rest, hd, rfl⟩ := Cursor.exists_of_kindAt_zero hkind hne
  rw [Cursor.kinds_skipWhile, Cursor.kinds_skipWhile, hd, List.dropWhile_cons_of_pos hseparates]

/-- What separates two statements is taken of both; where nothing is there at the end of the first
one, the seam begins in the second one. -/
theorem exists_of_separator {c' : Cursor} (h : Beside more c.kinds d.kinds)
    (hrun : Parser.separator c = .ok ((), c')) :
    ∃ d', Parser.separator d = .ok ((), d') ∧ Joined more c' d' := by
  have hseen := h.seen
  rw [Parser.separator, Parser.bind_kind_apply] at hrun
  rw [Parser.separator, Parser.bind_kind_apply]
  by_cases heof : c.kindAt 0 = .eof
  · rw [heof] at hrun hseen
    cases hrun
    generalize hk : d.kindAt 0 = k at hseen
    cases hseen with
    | same => exact ⟨d, rfl, h.joined⟩
    | feed | semi =>
      refine ⟨d.advance, rfl, ?_⟩
      rw [Joined, pastSeparators_advance hk rfl]
      exact h.joined
  · obtain ⟨hd, -, hrest⟩ := h.advance rfl heof
    rw [hd]
    generalize c.kindAt 0 = k at hrun heof
    cases k with
    | newline =>
      cases hrun
      exact ⟨d.advance, rfl, hrest.joined⟩
    | symbol mark =>
      cases mark with
      | semi =>
        cases hrun
        exact ⟨d.advance, rfl, hrest.joined⟩
      | rbrace =>
        cases hrun
        exact ⟨d, rfl, h.joined⟩
      | _ => cases hrun
    | eof => exact absurd rfl heof
    | _ => cases hrun

/-- Where the statements of a text are read, the same are read of one that goes on, and those that
are read behind the seam. -/
theorem exists_joined {extra levels' : Nat} {result : List Stmt} (hlevels : levels ≤ levels')
    (hend : ∀ d fuel', d.pastSeparators.kinds = behind more → extra < fuel' →
      ∃ rest last, programStatements fuel' levels' d = .ok (rest, last) ∧
        Stmt.mapSpansAll noSpan rest = Stmt.mapSpansAll noSpan result)
    (hjoined : Joined more c d) (hrun : programStatements fuel levels c = .ok (stmts, last))
    {fuel' : Nat} (hfuel : fuel + extra ≤ fuel') :
    ∃ joined last', programStatements fuel' levels' d = .ok (joined, last') ∧
      Stmt.mapSpansAll noSpan joined = Stmt.mapSpansAll noSpan (stmts ++ result) := by
  -- By the statements of the first text; what is left of the levels at its end is for the others.
  induction fuel generalizing c d stmts fuel' with
  | zero => cases hrun
  | succ fuel ih =>
    rcases hjoined with ⟨hbeside, hne⟩ | ⟨heof, hbehind⟩
    · obtain ⟨fuel', rfl⟩ : ∃ other, fuel' = other + 1 := ⟨fuel' - 1, by omega⟩
      rw [programStatements_of_ne_eof hne] at hrun
      have hne' : d.pastSeparators.kindAt 0 ≠ .eof := (hbeside.advance rfl hne).1 ▸ hne
      rw [programStatements_of_ne_eof hne']
      obtain ⟨stmt, c', hstmt, hrun⟩ := Parser.exists_of_bind hrun
      obtain ⟨-, stmt', d', hstmt', halike, hbeside'⟩ :=
        (Parser.mirrored more levels levels' hlevels).statement false hbeside stmt c' hstmt
      have hneeds := Stmt.needsSeparator_congr halike
      have hrest {c d : Cursor} (hjoined : Joined more c d)
          (hrun : (do return stmt :: (← programStatements fuel levels) : Parser (List Stmt)) c =
            .ok (stmts, last)) :
          ∃ joined last', (do return stmt' :: (← programStatements fuel' levels') :
              Parser (List Stmt)) d = .ok (joined, last') ∧
            Stmt.mapSpansAll noSpan joined = Stmt.mapSpansAll noSpan (stmts ++ result) := by
        obtain ⟨rest, middle, hrest, hpure⟩ := Parser.exists_of_bind hrun
        cases hpure
        obtain ⟨joined, last', hjoin, hview⟩ := ih hjoined hrest (by omega : fuel + extra ≤ fuel')
        refine ⟨stmt' :: joined, last', ?_, ?_⟩
        · rw [Parser.bind_apply, hjoin]
          rfl
        · rw [List.cons_append, Stmt.mapSpansAll, Stmt.mapSpansAll, halike, hview]
      rw [Parser.bind_apply, hstmt']
      dsimp only at hrun ⊢
      rw [hneeds] at hrun
      split
      · next hseparates =>
        rw [if_pos hseparates] at hrun
        obtain ⟨⟨⟩, c'', hseparator, hrun⟩ := Parser.exists_of_bind hrun
        obtain ⟨d'', hseparator', hjoined⟩ := exists_of_separator hbeside' hseparator
        rw [Parser.bind_apply, hseparator']
        exact hrest hjoined hrun
      · next hseparates =>
        rw [if_neg hseparates] at hrun
        exact hrest hbeside'.joined hrun
    · rw [programStatements_of_eof (Cursor.kindAt_zero_of_kinds heof)] at hrun
      cases hrun
      exact hend d fuel' hbehind (by omega)

/-! ### Source texts -/

/-- What is read of the tokens of a text is what is taken. -/
theorem exists_cursor {source : String} {own : List TokenKind} (h : Scans source.toList own) :
    ∃ c : Cursor, c.kinds = own ++ [.eof] ∧ ∀ program last,
      programStatements (own.length + 2) (10 * own.length + 20) c = .ok (program, last) →
        parse source = .ok program := by
  obtain ⟨found, hfound, hkinds⟩ := h.exists_tokens 0
  have htokens : tokens source = .ok found := hfound
  have hlength : found.length = own.length + 1 := by
    simpa using congrArg List.length hkinds
  have hcursor : (Cursor.mk ⟨0, 0⟩ found).kinds = own ++ [.eof] := hkinds
  refine ⟨⟨⟨0, 0⟩, found⟩, hcursor, fun program last hrun => ?_⟩
  rw [parse, htokens]
  change (fun result : List Stmt × Cursor => result.1) <$>
    programStatements (found.length + 1) (10 * found.length + 10) ⟨⟨0, 0⟩, found⟩ = .ok program
  rw [hlength]
  exact congrArg (Except.map fun result : List Stmt × Cursor => result.1) hrun

/-- The tokens of a text that is taken, and what is read of them. -/
theorem exists_scans_of_parse {source : String} {program : List Stmt}
    (h : parse source = .ok program) :
    ∃ own, ∃ c last : Cursor, Scans source.toList own ∧ c.kinds = own ++ [.eof] ∧
      programStatements (own.length + 2) (10 * own.length + 20) c = .ok (program, last) := by
  obtain ⟨found, last, htokens, hrun⟩ := exists_of_parse h
  obtain ⟨own, hscans, hkinds⟩ := exists_scans htokens
  have hlength : found.length = own.length + 1 := by
    simpa using congrArg List.length hkinds
  have hcursor : (Cursor.mk ⟨0, 0⟩ found).kinds = own ++ [.eof] := hkinds
  rw [hlength] at hrun
  exact ⟨own, _, last, hscans, hcursor, hrun⟩

/-- Statements are read again of tokens that are the same behind the separators at the front. -/
theorem exists_again {own : List TokenKind} (hc : c.kinds = own ++ [.eof]) (heof : .eof ∉ own)
    (hd : d.pastSeparators.kinds = c.pastSeparators.kinds)
    (hrun : programStatements fuel levels c = .ok (stmts, last)) {fuel' levels' : Nat}
    (hlevels : levels ≤ levels') (hfuel : fuel ≤ fuel') :
    ∃ again last', programStatements fuel' levels' d = .ok (again, last') ∧
      Stmt.mapSpansAll noSpan again = Stmt.mapSpansAll noSpan stmts := by
  -- The tokens are joined with none: the text alongside itself ends where it ends.
  have hself : Beside none c.kinds c.kinds := by
    rw [hc]
    exact Ends.eof.beside heof
  have hjoined : Joined none c d := by
    rw [Joined, hd]
    exact hself.joined
  have hend (d : Cursor) (fuel' : Nat) (hd : d.pastSeparators.kinds = behind none)
      (hfuel : 0 < fuel') : ∃ rest last, programStatements fuel' levels' d = .ok (rest, last) ∧
        Stmt.mapSpansAll noSpan rest = Stmt.mapSpansAll noSpan [] := by
    obtain ⟨fuel', rfl⟩ : ∃ other, fuel' = other + 1 := ⟨fuel' - 1, by omega⟩
    exact ⟨[], _, programStatements_of_eof (Cursor.kindAt_zero_of_kinds hd), rfl⟩
  obtain ⟨again, last', hagain, hview⟩ := exists_joined hlevels hend hjoined hrun hfuel
  rw [List.append_nil] at hview
  exact ⟨again, last', hagain, hview⟩

/-- **The statements of joined texts.** A text that does not end within a block comment, and another
one behind a seam: what is taken is the statements of the first one and those of the other one. -/
theorem exists_parse_joined {p q : String} {ps qs : List Stmt} (hp : parse p = .ok ps)
    (hq : parse q = .ok qs) (hclosed : ¬ OpenComment p.toList) :
    ∃ joined, parse (p ++ "\n;\n" ++ q) = .ok joined ∧
      Stmt.mapSpansAll noSpan joined = Stmt.mapSpansAll noSpan (ps ++ qs) := by
  obtain ⟨own, c, last, hscans, hc, hrun⟩ := exists_scans_of_parse hp
  obtain ⟨own', c', last', hscans', hc', hrun'⟩ := exists_scans_of_parse hq
  have htext : (p ++ "\n;\n" ++ q).toList = p.toList ++ '\n' :: ';' :: '\n' :: q.toList := by
    simp
  have hall := hscans.append_feed hclosed hscans'.seam
  rw [← htext] at hall
  obtain ⟨d, hd, hparse⟩ := exists_cursor hall
  have hlength : (own ++ .newline :: .symbol .semi :: .newline :: own').length =
      own.length + own'.length + 3 := by
    rw [List.length_append, List.length_cons, List.length_cons, List.length_cons]
    omega
  rw [hlength] at hparse
  have hbeside : Beside (some (.newline :: (own' ++ [.eof]))) c.kinds d.kinds := by
    rw [hc, hd, List.append_assoc]
    exact Ends.feed.beside hscans.eof_not_mem
  have hend (d : Cursor) (fuel' : Nat)
      (hd : d.pastSeparators.kinds = behind (some (.newline :: (own' ++ [.eof]))))
      (hfuel : own'.length + 2 < fuel') :
      ∃ rest last, programStatements fuel' (10 * (own.length + own'.length + 3) + 20) d =
          .ok (rest, last) ∧
        Stmt.mapSpansAll noSpan rest = Stmt.mapSpansAll noSpan qs := by
    refine exists_again hc' hscans'.eof_not_mem ?_ hrun' (by omega) hfuel.le
    rw [hd, Cursor.kinds_skipWhile, hc']
    rfl
  have hfuel : own.length + 2 + (own'.length + 2) ≤ own.length + own'.length + 3 + 2 := by omega
  obtain ⟨joined, final, hjoined, hview⟩ :=
    exists_joined (by omega) hend hbeside.joined hrun hfuel
  exact ⟨joined, hparse joined final hjoined, hview⟩

end Doctest.Script
