import Doctest.Proofs.Check.Classification
import Doctest.Proofs.Check.Running
import Doctest.Proofs.Text.Words

/-!
# Continued statements

The lines of a block are statements, each with the lines that continue it. A statement that is not
continued keeps its payload as it is written. Of one that is, the payload and the continuations are
trimmed, and single spaces stand between those that are not empty; the last continuation has a space
before it even if there is nothing else.
-/

namespace Doctest

/-- A statement as its first line begins it, and what the lines that continue it add. -/
structure Continued where
  first : Statement
  rests : List String

namespace Continued

variable (c : Continued)

/-- The lines of a statement. -/
def lines : List BlockLine :=
  .statement c.first :: c.rests.map .continuation

/-- The texts of a payload and of what continues it, trimmed. -/
def parts (payload : String) (rests : List String) : List (List Char) :=
  (payload :: rests).map (Text.trim ·.toList)

/-- The payload of a statement with all that continues it. -/
def payload : String :=
  match c.rests.getLast? with
  | none => c.first.payload
  | some last =>
    String.ofList (Text.joined (parts c.first.payload c.rests.dropLast) ++
      ' ' :: Text.trim last.toList)

/-- A statement with all that continues it. -/
def statement : Statement :=
  ⟨c.first.kind, c.payload⟩

@[simp] theorem kind_statement : c.statement.kind = c.first.kind := rfl

/-- Only a statement that holds code may be continued. -/
def Allowed : Prop :=
  c.rests ≠ [] → c.first.kind ∉ [.error, .errorCode, .rejectError, .rejectErrorCode]

theorem parts_concat (payload : String) (rests : List String) (last : String) :
    parts payload (rests ++ [last]) = parts payload rests ++ [Text.trim last.toList] := by
  rw [parts, ← List.cons_append, List.map_append]
  rfl

theorem isTrimmed_of_mem_parts {payload : String} {rests : List String} {part : List Char}
    (h : part ∈ parts payload rests) : Text.IsTrimmed part := by
  obtain ⟨whole, -, rfl⟩ := List.mem_map.mp h
  exact Text.isTrimmed_trim _

/-- A trimmed payload has single spaces between its parts and no others around them. -/
theorem trim_payload :
    Text.trim c.payload.toList = Text.joined (parts c.first.payload c.rests) := by
  obtain ⟨first, rests⟩ := c
  rcases List.eq_nil_or_concat' rests with rfl | ⟨front, last, rfl⟩
  · exact (Text.joined_singleton _).symm
  · rw [payload, List.getLast?_concat, List.dropLast_concat, String.toList_ofList, parts_concat]
    exact Text.trim_joined_append (fun _ => isTrimmed_of_mem_parts) (Text.isTrimmed_trim _)

/-- One more line continues a statement as it stands by then. -/
theorem continued_statement (first : Statement) (rests : List String) (rest : String) :
    (statement ⟨first, rests⟩).continued rest = statement ⟨first, rests ++ [rest]⟩ := by
  have hfront := trim_payload ⟨first, rests⟩
  have hmore : payload ⟨first, rests ++ [rest]⟩ =
      String.ofList (Text.joined (parts first.payload rests) ++ ' ' :: Text.trim rest.toList) := by
    rw [payload, List.getLast?_concat, List.dropLast_concat]
  rw [Statement.continued, statement, statement, hmore, ← hfront]

end Continued

namespace Block

variable {ls : List BlockLine} {groups : List Continued}

theorem isContinuable_iff {kind : StatementKind} :
    kind.isContinuable = true ↔
      kind ∉ [StatementKind.error, .errorCode, .rejectError, .rejectErrorCode] := by
  rw [mem_literal_iff, Bool.not_eq_false]

/-- Lines that continue a statement are added to it one after the other. -/
theorem foldlM_continuations {first : Statement} {before : List Statement}
    (hfirst : first.kind.isContinuable = true) (front rests : List String) :
    (rests.map BlockLine.continuation).foldlM addLine
        (Continued.statement ⟨first, front⟩ :: before) =
      .ok (Continued.statement ⟨first, front ++ rests⟩ :: before) := by
  induction rests generalizing front with
  | nil =>
    rw [List.append_nil]
    rfl
  | cons rest rests ih =>
    have hadd : addLine (Continued.statement ⟨first, front⟩ :: before) (.continuation rest) =
        .ok (Continued.statement ⟨first, front ++ [rest]⟩ :: before) := by
      rw [addLine, Continued.kind_statement, if_pos hfirst, Continued.continued_statement]
    rw [List.map_cons, List.foldlM_cons, hadd]
    change (rests.map BlockLine.continuation).foldlM addLine _ = _
    rw [ih, List.append_assoc, List.singleton_append]

/-- The lines of a statement make it, whatever comes before. -/
theorem foldlM_lines {c : Continued} (hc : c.Allowed) (before : List Statement) :
    c.lines.foldlM addLine before = .ok (c.statement :: before) := by
  obtain ⟨first, rests⟩ := c
  change (rests.map BlockLine.continuation).foldlM addLine (first :: before) = _
  cases rests with
  | nil => rfl
  | cons rest rests =>
    have hfirst := isContinuable_iff.mpr (hc (List.cons_ne_nil rest rests))
    exact foldlM_continuations hfirst [] (rest :: rests)

/-- The lines of statements make them, the last of them in front. -/
theorem foldlM_flatMap_lines (h : ∀ c ∈ groups, c.Allowed) (before : List Statement) :
    (groups.flatMap Continued.lines).foldlM addLine before =
      .ok ((groups.map Continued.statement).reverse ++ before) := by
  induction groups generalizing before with
  | nil => rfl
  | cons c groups ih =>
    obtain ⟨hc, hgroups⟩ := List.forall_mem_cons.mp h
    rw [List.flatMap_cons, List.foldlM_append, foldlM_lines hc]
    change (groups.flatMap Continued.lines).foldlM addLine _ = _
    rw [ih hgroups, List.map_cons, List.reverse_cons, List.append_assoc, List.singleton_append]

/-- Lines that make statements are the lines of some. -/
theorem exists_groups {found : List Statement} (h : ls.foldlM addLine [] = .ok found) :
    ∃ groups : List Continued, ls = groups.flatMap Continued.lines ∧ ∀ c ∈ groups, c.Allowed := by
  -- From the end, since a continuation belongs to the statement before it.
  induction ls using List.reverseRecOn generalizing found with
  | nil => exact ⟨[], rfl, nofun⟩
  | append_singleton ls line ih =>
    rw [List.foldlM_append] at h
    cases hfront : ls.foldlM addLine [] with
    | error fault =>
      rw [hfront] at h
      cases h
    | ok before =>
      rw [hfront] at h
      change addLine before line >>= pure = .ok found at h
      rw [bind_pure] at h
      obtain ⟨groups, rfl, hgroups⟩ := ih hfront
      cases line with
      | statement first =>
        refine ⟨groups ++ [⟨first, []⟩], ?_, ?_⟩
        · rw [List.flatMap_append, List.flatMap_singleton]
          rfl
        · exact List.forall_mem_append.mpr
            ⟨hgroups, List.forall_mem_singleton.mpr fun hne => absurd rfl hne⟩
      | continuation rest =>
        rcases List.eq_nil_or_concat' groups with rfl | ⟨others, ⟨first, rests⟩, rfl⟩
        · cases hfront
          cases h
        · obtain ⟨hothers, -⟩ := List.forall_mem_append.mp hgroups
          have hmade := foldlM_flatMap_lines hgroups []
          rw [hfront] at hmade
          cases hmade
          have hfirst : first.kind.isContinuable = true := by
            rw [List.map_append, List.reverse_append] at h
            by_contra hnot
            change (if first.kind.isContinuable then _ else Except.error _) = _ at h
            rw [if_neg hnot] at h
            cases h
          refine ⟨others ++ [⟨first, rests ++ [rest]⟩], ?_, ?_⟩
          · rw [List.flatMap_append, List.flatMap_append, List.flatMap_singleton,
              List.flatMap_singleton, List.append_assoc]
            refine congrArg (_ ++ ·) ?_
            rw [Continued.lines, Continued.lines, List.map_append]
            rfl
          · exact List.forall_mem_append.mpr
              ⟨hothers, List.forall_mem_singleton.mpr fun _ => isContinuable_iff.mp hfirst⟩

/-- A block has the statements that its lines are cut into. -/
theorem statements_eq_ok_iff_groups {code : String} {found : List Statement} :
    statements code = .ok found ↔ ∃ groups : List Continued,
      lines code = groups.flatMap Continued.lines ∧ (∀ c ∈ groups, c.Allowed) ∧
        found = groups.map Continued.statement := by
  rw [statements_eq_ok_iff]
  constructor
  · intro h
    obtain ⟨groups, hlines, hgroups⟩ := exists_groups h
    rw [hlines, foldlM_flatMap_lines hgroups, List.append_nil] at h
    exact ⟨groups, hlines, hgroups, (List.reverse_injective (Except.ok.inj h)).symm⟩
  · rintro ⟨groups, hlines, hgroups, rfl⟩
    rw [hlines, foldlM_flatMap_lines hgroups, List.append_nil]

/-- A block fails for the first of its lines that is refused. -/
theorem statements_fails_iff {code message : String} :
    (∃ fault, statements code = .error fault ∧ fault.message = message) ↔
      ∃ before line after, lines code = before ++ line :: after ∧ Allowed before ∧
        Refused before line message := by
  constructor
  · rintro ⟨fault, hfault, rfl⟩
    rcases allowed_or_refused (lines code) with
      hallowed | ⟨before, line, after, message, hlines, hbefore, hrefused⟩
    · obtain ⟨found, hfound, -⟩ := statements_of_allowed hallowed
      cases hfault.symm.trans hfound
    · obtain ⟨other, hother, rfl⟩ := statements_of_refused hlines hbefore hrefused
      cases hfault.symm.trans hother
      exact ⟨before, line, after, hlines, hbefore, hrefused⟩
  · rintro ⟨before, line, after, hlines, hbefore, hrefused⟩
    exact statements_of_refused hlines hbefore hrefused

/-- **Blocks are assembled from their lines.** A block fails for the first of its lines that may not
come after those before it. Otherwise its lines are those of statements, one for each line that is
no continuation, with all that continues them. -/
theorem statements_assembled (code : String) :
    (∀ line, BlockLine.openings.Pairwise fun first second =>
      ¬ (first <+: line ∧ second <+: line)) ∧
    ∃ ls, Lined code ls ∧
      (∀ message, (∃ fault, statements code = .error fault ∧ fault.message = message) ↔
        ∃ before line after, ls = before ++ line :: after ∧ Allowed before ∧
          Refused before line message) ∧
      ∀ found, statements code = .ok found ↔ ∃ groups : List Continued,
        ls = groups.flatMap Continued.lines ∧ (∀ c ∈ groups, c.Allowed) ∧
          found = groups.map Continued.statement :=
  ⟨BlockLine.openings_pairwise, lines code, lined_lines code, fun _ => statements_fails_iff,
    fun _ => statements_eq_ok_iff_groups⟩

/-- Blank continuations leave nothing but a space before the last of them. -/
example : (Continued.statement ⟨⟨.input, " f( "⟩, ["", "  a ", " "]⟩).payload = "f( a " := by
  decide +kernel

end Block

end Doctest
