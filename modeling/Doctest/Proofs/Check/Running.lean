import Mathlib.Data.List.Induction
import Doctest.Check.Run
import Doctest.Proofs.Check.Statements
import Doctest.Script.Evaluator

/-!
# Running blocks

A malformed block runs nothing, and which blocks are malformed is told by their lines alone. Of a
well-formed block, the first input is evaluated first. Blocks that are put together run one after
the other, with nothing kept from one to the next but what the language itself keeps.
-/

namespace Doctest

namespace Block

/-- What is said of a line that may not come after others: a continuation needs a statement before
it, and the nearest one must not be a literal text. -/
inductive Refused (before : List BlockLine) : BlockLine → String → Prop
  | stray (rest : String) : (kinds before).getLast? = none →
      Refused before (.continuation rest)
        "Continuation must be preceded by input or expected output"
  | literal (rest : String) (kind : StatementKind) : (kinds before).getLast? = some kind →
      kind ∈ [.error, .errorCode, .rejectError, .rejectErrorCode] →
      Refused before (.continuation rest) ("Continuation is not supported for " ++ kind.name)

/-- Lines each of which may come after those before it. -/
def Allowed (ls : List BlockLine) : Prop :=
  ∀ before line after message, ls = before ++ line :: after → ¬ Refused before line message

/-- What is said of the lines of a malformed block: of the first that is refused if there is one,
and otherwise that no input comes first. -/
inductive Malformed (ls : List BlockLine) : String → Prop
  | refused {before : List BlockLine} {line : BlockLine} {after : List BlockLine}
      {message : String} : ls = before ++ line :: after → Allowed before →
      Refused before line message → Malformed ls message
  | inputless : Allowed ls → (kinds ls).head? ≠ some .input →
      Malformed ls "at least one input required"

theorem mem_literal_iff {kind : StatementKind} :
    kind ∈ [StatementKind.error, .errorCode, .rejectError, .rejectErrorCode] ↔
      kind.isContinuable = false := by
  cases kind <;> decide

/-- Only one thing is said of a line. -/
theorem Refused.unique {before : List BlockLine} {line : BlockLine} {message other : String}
    (h : Refused before line message) (hother : Refused before line other) : message = other := by
  cases h with
  | stray rest hnone =>
    cases hother with
    | stray => rfl
    | literal _ _ hsome => simp [hnone] at hsome
  | literal rest kind hsome =>
    cases hother with
    | stray _ hnone => simp [hsome] at hnone
    | literal _ _ hother =>
      obtain rfl := Option.some.inj (hsome.symm.trans hother)
      rfl

/-- Lines at the front of allowed lines are allowed. -/
theorem Allowed.of_append {front back : List BlockLine} (h : Allowed (front ++ back)) :
    Allowed front := by
  rintro before line after message rfl
  exact h before line (after ++ back) message (by simp)

/-- A line that is not refused may come after allowed ones. -/
theorem Allowed.concat {ls : List BlockLine} (h : Allowed ls) {line : BlockLine}
    (hline : ∀ message, ¬ Refused ls line message) : Allowed (ls ++ [line]) := by
  intro before other after message hsplit
  rcases List.eq_nil_or_concat after with rfl | ⟨middle, last, rfl⟩
  · obtain ⟨rfl, hlast⟩ := List.append_inj' hsplit rfl
    obtain rfl : line = other := by simpa using hlast
    exact hline message
  · have hlonger :
        before ++ other :: (middle ++ [last]) = (before ++ other :: middle) ++ [last] := by
      simp
    rw [List.concat_eq_append, hlonger] at hsplit
    exact h before other middle message (List.append_inj' hsplit rfl).1

/-- The statement that a further line may continue is of the kind that was begun last. -/
theorem head?_map_kind {ls : List BlockLine} {found : List Statement}
    (h : ls.foldlM addLine [] = .ok found) :
    found.head?.map Statement.kind = (kinds ls).getLast? := by
  have hkinds := congrArg List.head? (map_kind_foldlM h)
  simpa using hkinds

/-- A line is added, or else it is refused and the fault says so. -/
theorem addLine_or_refused {before : List BlockLine} {found : List Statement}
    (hfound : before.foldlM addLine [] = .ok found) (line : BlockLine) :
    (∃ after, addLine found line = .ok after ∧ ∀ message, ¬ Refused before line message) ∨
      ∃ fault, addLine found line = .error fault ∧ Refused before line fault.message := by
  have hlast := head?_map_kind hfound
  cases line with
  | statement statement => exact .inl ⟨statement :: found, rfl, fun message h => by cases h⟩
  | continuation rest =>
    cases found with
    | nil => exact .inr ⟨.strayContinuation, rfl, .stray rest hlast.symm⟩
    | cons last earlier =>
      cases hkind : last.kind.isContinuable with
      | true =>
        refine .inl ⟨last.continued rest :: earlier, by simp [addLine, hkind], ?_⟩
        intro message h
        cases h with
        | stray _ hnone => simp [hnone] at hlast
        | literal _ kind hsome hmem =>
          rw [hsome] at hlast
          obtain rfl := Option.some.inj hlast
          rw [mem_literal_iff, hkind] at hmem
          cases hmem
      | false =>
        refine .inr ⟨.notContinuable last.kind, by simp [addLine, hkind], ?_⟩
        exact .literal rest last.kind hlast.symm (mem_literal_iff.mpr hkind)

/-- Allowed lines make statements. -/
theorem exists_foldlM_of_allowed {ls : List BlockLine} (h : Allowed ls) :
    ∃ found, ls.foldlM addLine [] = .ok found := by
  induction ls using List.reverseRecOn with
  | nil => exact ⟨[], rfl⟩
  | append_singleton ls line ih =>
    obtain ⟨found, hfound⟩ := ih h.of_append
    rcases addLine_or_refused hfound line with ⟨after, hafter, -⟩ | ⟨fault, -, hrefused⟩
    · refine ⟨after, ?_⟩
      rw [List.foldlM_append, hfound]
      change addLine found line >>= pure = _
      rw [bind_pure, hafter]
    · exact absurd hrefused (h ls line [] _ rfl)

/-- The first line that is refused is the fault of its block. -/
theorem statements_of_refused {code : String} {before after : List BlockLine} {line : BlockLine}
    {message : String} (hlines : lines code = before ++ line :: after) (hbefore : Allowed before)
    (hrefused : Refused before line message) :
    ∃ fault, statements code = .error fault ∧ fault.message = message := by
  obtain ⟨found, hfound⟩ := exists_foldlM_of_allowed hbefore
  rcases addLine_or_refused hfound line with ⟨-, -, hnone⟩ | ⟨fault, hfault, hother⟩
  · exact absurd hrefused (hnone message)
  · refine ⟨fault, ?_, hother.unique hrefused⟩
    rw [statements, hlines, List.foldlM_append, hfound]
    change (addLine found line >>= fun next => after.foldlM addLine next).map List.reverse = _
    rw [hfault]
    rfl

/-- Allowed lines are the lines of a block with statements of their kinds. -/
theorem statements_of_allowed {code : String} (h : Allowed (lines code)) :
    ∃ found, statements code = .ok found ∧
      found.head?.map Statement.kind = (kinds (lines code)).head? := by
  obtain ⟨found, hfound⟩ := exists_foldlM_of_allowed h
  have hstatements : statements code = .ok found.reverse := by
    rw [statements_eq_ok_iff, List.reverse_reverse, hfound]
  refine ⟨found.reverse, hstatements, ?_⟩
  rw [← map_kind_statements hstatements, List.head?_map]

/-- Lines that are not all allowed have a first one that is refused. -/
theorem allowed_or_refused (ls : List BlockLine) :
    Allowed ls ∨ ∃ before line after message, ls = before ++ line :: after ∧ Allowed before ∧
      Refused before line message := by
  -- From the end, since a line is refused for what comes before it.
  induction ls using List.reverseRecOn with
  | nil => exact .inl fun before line after message hsplit => by simp at hsplit
  | append_singleton ls last ih =>
    rcases ih with hallowed | ⟨before, line, after, message, rfl, hbefore, hrefused⟩
    · by_cases hlast : ∃ message, Refused ls last message
      · obtain ⟨message, hrefused⟩ := hlast
        exact .inr ⟨ls, last, [], message, rfl, hallowed, hrefused⟩
      · exact .inl (hallowed.concat (not_exists.mp hlast))
    · exact .inr ⟨before, line, after ++ [last], message, by simp, hbefore, hrefused⟩

/-- The blocks that are not malformed are those with statements, an input the first of them. -/
theorem not_malformed_iff {code : String} :
    (∀ message, ¬ Malformed (lines code) message) ↔
      ∃ payload rest, statements code = .ok (⟨.input, payload⟩ :: rest) := by
  constructor
  · intro h
    have hallowed : Allowed (lines code) := by
      rcases allowed_or_refused (lines code) with
        hallowed | ⟨before, line, after, message, hlines, hbefore, hrefused⟩
      · exact hallowed
      · exact absurd (.refused hlines hbefore hrefused) (h message)
    obtain ⟨found, hfound, hhead⟩ := statements_of_allowed hallowed
    have hinput : (kinds (lines code)).head? = some .input := by
      by_contra hne
      exact h _ (.inputless hallowed hne)
    rw [hinput] at hhead
    cases found with
    | nil => cases hhead
    | cons first rest =>
      obtain ⟨kind, payload⟩ := first
      obtain rfl : kind = .input := by simpa using hhead
      exact ⟨payload, rest, hfound⟩
  · rintro ⟨payload, rest, hstatements⟩ message hmalformed
    cases hmalformed with
    | refused hlines hbefore hrefused =>
      obtain ⟨fault, hfault, -⟩ := statements_of_refused hlines hbefore hrefused
      rw [hstatements] at hfault
      cases hfault
    | inputless _ hhead =>
      rw [← map_kind_statements hstatements] at hhead
      exact hhead rfl

end Block

namespace Evaluator

variable {m : Type → Type} {V : Type} [Monad m] [LawfulMonad m] (lang : Evaluator m V)

/-- What an input makes its result: the value that was given or raised. -/
def captured : Except V V → V
  | .ok result => result
  | .error raised => raised

/-- Runs one statement when there may be no result to compare with. An input needs none, and of any
other statement there is only what stands in its place. -/
def stepOr (missing : ExceptT BlockFault m (Option (Progress V))) (progress : Option (Progress V))
    (statement : Statement) : ExceptT BlockFault m (Option (Progress V)) :=
  if statement.kind = .input then some <$> lang.start statement.payload
  else
    match progress with
    | none => missing
    | some progress => some <$> lang.step progress statement

omit [LawfulMonad m] in
theorem step_input (progress : Progress V) (code : String) :
    lang.step progress ⟨.input, code⟩ = lang.start code := rfl

omit [LawfulMonad m] in
/-- With a result, nothing stands in the place of a statement. -/
theorem stepOr_some (missing : ExceptT BlockFault m (Option (Progress V))) (progress : Progress V)
    (statement : Statement) :
    lang.stepOr missing (some progress) statement = some <$> lang.step progress statement := by
  obtain ⟨kind, payload⟩ := statement
  cases kind <;> rfl

omit [LawfulMonad m] in
/-- Statements that do not begin with an input are not run. -/
theorem runStatements_of_not_input {statements : List Statement}
    (h : statements.head?.map Statement.kind ≠ some .input) :
    lang.runStatements statements = throw .noInput := by
  unfold runStatements
  split
  case h_1 => exact absurd rfl h
  case h_2 => rfl

omit [LawfulMonad m] in
/-- A block with statements runs them. -/
theorem runBlock_of_statements {code : String} {statements : List Statement}
    (h : Block.statements code = .ok statements) :
    lang.runBlock code = Verdict.ofResult <$> (lang.runStatements statements).run := by
  rw [runBlock, h]

/-- An input is evaluated, and what it gives or raises is its result. -/
theorem run_start (code : String) :
    (lang.start code).run =
      (fun answer => .ok ⟨code, captured answer⟩) <$> lang.evaluate code := by
  simp only [start, liftM, monadLift, MonadLift.monadLift, ExceptT.run_bind, ExceptT.run_lift,
    bind_map_left]
  rw [← bind_pure_comp]
  refine congrArg (lang.evaluate code >>= ·) (funext fun answer => ?_)
  cases answer <;> rfl

theorem discard_eq {α : Type} (x : ExceptT BlockFault m α) :
    discard x = (fun _ => PUnit.unit) <$> x := by
  rw [discard, map_const]
  rfl

/-- Once there is a result, there always is one. -/
theorem foldlM_stepOr_some (missing : ExceptT BlockFault m (Option (Progress V)))
    (progress : Progress V) (statements : List Statement) :
    statements.foldlM (lang.stepOr missing) (some progress) =
      some <$> statements.foldlM lang.step progress := by
  induction statements generalizing progress with
  | nil => simp
  | cons statement rest ih => simp [stepOr_some, ih, map_bind]

/-- From an input on, it does not matter what stands in the place of a statement without a
result. -/
theorem runStatements_eq_foldlM_stepOr (missing : ExceptT BlockFault m (Option (Progress V)))
    (code : String) (rest : List Statement) :
    lang.runStatements (⟨.input, code⟩ :: rest) =
      discard ((⟨.input, code⟩ :: rest).foldlM (lang.stepOr missing) none) := by
  rw [runStatements, List.foldlM_cons, stepOr, if_pos rfl]
  simp only [bind_map_left, foldlM_stepOr_some, discard_eq, map_bind, Functor.map_map]

/-- **Malformed blocks.** A block with a line that is refused, or without an input in front, fails
with the message that its lines tell, and nothing is run. Of any other block, the first that is run
is the evaluation of the first input; from then on there is a result for every statement. -/
theorem malformed_runs_nothing (code : String) :
    (∀ message, Block.Malformed (Block.lines code) message →
      ∃ fault, lang.runBlock code = pure (.fail fault) ∧ fault.message = message) ∧
    ((∀ message, ¬ Block.Malformed (Block.lines code) message) →
      ∃ payload rest, Block.statements code = .ok (⟨.input, payload⟩ :: rest) ∧
        lang.runBlock code = (do
          let answer ← lang.evaluate payload
          Verdict.ofResult <$>
            (discard (rest.foldlM lang.step ⟨payload, captured answer⟩)).run) ∧
        ∀ missing, lang.runBlock code = Verdict.ofResult <$>
          (discard ((⟨.input, payload⟩ :: rest).foldlM (lang.stepOr missing) none)).run) := by
  constructor
  · intro message h
    cases h with
    | refused hlines hbefore hrefused =>
      obtain ⟨fault, hfault, hmessage⟩ := Block.statements_of_refused hlines hbefore hrefused
      exact ⟨fault, by rw [runBlock, hfault], hmessage⟩
    | inputless hallowed hhead =>
      obtain ⟨found, hfound, hkind⟩ := Block.statements_of_allowed hallowed
      refine ⟨.noInput, ?_, rfl⟩
      rw [lang.runBlock_of_statements hfound,
        lang.runStatements_of_not_input (by rwa [hkind]), ExceptT.run_throw, map_pure]
      rfl
  · intro h
    obtain ⟨payload, rest, hstatements⟩ := Block.not_malformed_iff.mp h
    refine ⟨payload, rest, hstatements, ?_, fun missing => ?_⟩
    · rw [lang.runBlock_of_statements hstatements, runStatements, ExceptT.run_bind, run_start,
        bind_map_left, map_bind]
    · rw [lang.runBlock_of_statements hstatements, runStatements_eq_foldlM_stepOr]

/-- An input in front of a line that is refused is not run. Where no line is refused, it is the
first to be evaluated. -/
theorem malformed_after_input :
    (Block.Malformed (Block.lines "> let a = 'x'\nError: x\n... y\n> a")
      "Continuation is not supported for error" ∧
    ∃ fault, (Script.evaluator Script.amplyManyLevels).runBlock
        "> let a = 'x'\nError: x\n... y\n> a" = pure (.fail fault) ∧
      fault.message = "Continuation is not supported for error") ∧
    (∀ message, ¬ Block.Malformed (Block.lines "> let a = 'x'\n> a") message) ∧
    ∃ payload rest, Block.statements "> let a = 'x'\n> a" = .ok (⟨.input, payload⟩ :: rest) ∧
      (Script.evaluator Script.amplyManyLevels).runBlock "> let a = 'x'\n> a" = (do
        let answer ← (Script.evaluator Script.amplyManyLevels).evaluate payload
        Verdict.ofResult <$> (discard (rest.foldlM (Script.evaluator Script.amplyManyLevels).step
          ⟨payload, captured answer⟩)).run) := by
  have hlines : Block.lines "> let a = 'x'\nError: x\n... y\n> a" =
      [.statement ⟨.input, "let a = 'x'"⟩, .statement ⟨.error, "x"⟩] ++
        .continuation "y" :: [.statement ⟨.input, "a"⟩] := by
    decide +kernel
  have hnil : Block.Allowed [] := fun _ _ _ _ hsplit => by simp at hsplit
  have hinput : Block.Allowed [.statement ⟨.input, "let a = 'x'"⟩] :=
    hnil.concat fun _ hrefused => by cases hrefused
  have hbefore : Block.Allowed [.statement ⟨.input, "let a = 'x'"⟩, .statement ⟨.error, "x"⟩] :=
    hinput.concat fun _ hrefused => by cases hrefused
  have hmalformed : Block.Malformed (Block.lines "> let a = 'x'\nError: x\n... y\n> a")
      "Continuation is not supported for error" :=
    .refused hlines hbefore (.literal "y" .error rfl (by simp))
  have hstatements : Block.statements "> let a = 'x'\n> a" =
      .ok [⟨.input, "let a = 'x'"⟩, ⟨.input, "a"⟩] := by
    decide +kernel
  have hwell := Block.not_malformed_iff.mpr ⟨_, _, hstatements⟩
  obtain ⟨payload, rest, hfound, hrun, -⟩ := (malformed_runs_nothing
    (Script.evaluator Script.amplyManyLevels) "> let a = 'x'\n> a").2 hwell
  exact ⟨⟨hmalformed, (malformed_runs_nothing _ _).1 _ hmalformed⟩, hwell, payload, rest, hfound,
    hrun⟩

/-- Statements that begin with an input run after others as they run by themselves. -/
theorem runStatements_append (first second : String) (before after : List Statement) :
    lang.runStatements (⟨.input, first⟩ :: before ++ ⟨.input, second⟩ :: after) = (do
      lang.runStatements (⟨.input, first⟩ :: before)
      lang.runStatements (⟨.input, second⟩ :: after)) := by
  simp only [List.cons_append, runStatements, List.foldlM_append, List.foldlM_cons, step_input,
    discard_eq, bind_assoc, bind_map_left, map_bind]

/-- **Composition of blocks.** Two blocks put together run as the first and then, if that passes,
the second. What is run from an input on does not depend on what was run before it. -/
theorem runBlock_append {first second input other : String} {before after : List Statement}
    (hfirst : Block.statements first = .ok (⟨.input, input⟩ :: before))
    (hsecond : Block.statements second = .ok (⟨.input, other⟩ :: after)) :
    lang.runBlock (first ++ "\n" ++ second) = (do
      match ← lang.runBlock first with
      | .pass => lang.runBlock second
      | .fail fault => return .fail fault) ∧
    ∀ progress progress' : Progress V, (⟨.input, other⟩ :: after).foldlM lang.step progress =
      (⟨.input, other⟩ :: after).foldlM lang.step progress' := by
  refine ⟨?_, fun _ _ => rfl⟩
  rw [lang.runBlock_of_statements (Block.statements_append hfirst hsecond),
    lang.runBlock_of_statements hfirst, lang.runBlock_of_statements hsecond,
    runStatements_append, ExceptT.run_bind, map_bind, bind_map_left]
  refine congrArg _ (funext fun result => ?_)
  cases result with
  | ok => rfl
  | error fault => exact map_pure _ _

/-- The second of two blocks fails by itself, with the name that the first declared. -/
theorem runBlock_append_declared :
    Block.statements "> let a = 'x'\n> a\n'x'" =
      .ok [⟨.input, "let a = 'x'"⟩, ⟨.input, "a"⟩, ⟨.output, "'x'"⟩] ∧
    Block.statements "> a + 'y'\n'xz'" = .ok [⟨.input, "a + 'y'"⟩, ⟨.output, "'xz'"⟩] ∧
    (((Script.evaluator Script.amplyManyLevels).runBlock
        ("> let a = 'x'\n> a\n'x'" ++ "\n" ++ "> a + 'y'\n'xz'")).run Script.Session.new).map
      Prod.fst = some (.fail (.mismatch "a + 'y'" "'xz'" "'xy'")) := by
  have hfirst : Block.statements "> let a = 'x'\n> a\n'x'" =
      .ok [⟨.input, "let a = 'x'"⟩, ⟨.input, "a"⟩, ⟨.output, "'x'"⟩] := by
    decide +kernel
  have hsecond : Block.statements "> a + 'y'\n'xz'" =
      .ok [⟨.input, "a + 'y'"⟩, ⟨.output, "'xz'"⟩] := by
    decide +kernel
  refine ⟨hfirst, hsecond, ?_⟩
  rw [(runBlock_append (Script.evaluator Script.amplyManyLevels) hfirst hsecond).1]
  decide +kernel

end Evaluator

end Doctest
