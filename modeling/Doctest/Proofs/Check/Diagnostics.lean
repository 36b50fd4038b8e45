import Doctest.Proofs.Check.Calls
import Doctest.Proofs.Script.SingleLines

/-!
# Messages on one line

A comparison that fails tells the input and shows two values that are not equal. Whether that takes
one line is decided by the input and by the names and messages within the two values.
-/

namespace Doctest

open Script Text

/-! ### Runs that fail -/

/-- What is known of every fault that an action ends with, in the session that it ends in. -/
def FailsWith {α : Type} (known : Session → BlockFault → Prop)
    (action : ExceptT BlockFault Step α) : Prop :=
  ∀ session fault next, action.run.run session = some (.error fault, next) → known next fault

namespace FailsWith

variable {α β : Type} {known : Session → BlockFault → Prop}

theorem pure (a : α) : FailsWith known (Pure.pure a) := by
  rintro session fault next ⟨⟩

theorem throw {fault : BlockFault} (h : ∀ session, known session fault) :
    FailsWith known (MonadExcept.throw fault : ExceptT BlockFault Step α) := by
  rintro session fault next ⟨⟩
  exact h session

theorem lift (action : Step α) : FailsWith known (liftM action) := by
  intro session fault next h
  rw [Notes.run_lift] at h
  obtain ⟨found, -, ⟨⟩⟩ := Option.map_eq_some_iff.mp h

theorem bind {x : ExceptT BlockFault Step α} {f : α → ExceptT BlockFault Step β}
    (hx : FailsWith known x) (hf : ∀ a, FailsWith known (f a)) : FailsWith known (x >>= f) := by
  intro session fault next h
  rw [ExceptT.run_bind, StateT.run_bind] at h
  obtain ⟨⟨found, middle⟩, hrun, hrest⟩ := Option.bind_eq_some_iff.mp h
  cases found with
  | ok a => exact hf a middle fault next hrest
  | error found =>
    cases hrest
    exact hx _ _ _ hrun

theorem foldlM {f : β → α → ExceptT BlockFault Step β} (hf : ∀ b a, FailsWith known (f b a))
    (as : List α) (b : β) : FailsWith known (as.foldlM f b) := by
  induction as generalizing b with
  | nil => exact .pure b
  | cons a as ih =>
    rw [List.foldlM_cons]
    exact (hf b a).bind ih

end FailsWith

/-! ### What failed comparisons show -/

/-- A comparison that failed shows two values that are not equal. -/
def BlockFault.ShowsUnequal (session : Session) : BlockFault → Prop
  | .mismatch _ expected actual => ∃ a b, session.heap.deepEquals a b = false ∧
      expected = session.heap.inspect b ∧ actual = session.heap.inspect a
  | _ => True

open BlockFault (ShowsUnequal)

namespace Block

theorem showsUnequal_of_addLine {before : List Statement} {line : BlockLine} {fault : BlockFault}
    (h : addLine before line = .error fault) (session : Session) :
    fault.ShowsUnequal session := by
  cases line with
  | statement statement => cases h
  | continuation rest =>
    cases before with
    | nil =>
      cases h
      trivial
    | cons last earlier =>
      rw [addLine] at h
      split at h
      · cases h
      · cases h
        trivial

/-- Lines that make no statements compare nothing. -/
theorem showsUnequal_of_statements {block : String} {fault : BlockFault}
    (h : statements block = .error fault) (session : Session) : fault.ShowsUnequal session := by
  have hlines (ls : List BlockLine) (before : List Statement)
      (hfold : ls.foldlM addLine before = .error fault) : fault.ShowsUnequal session := by
    induction ls generalizing before with
    | nil => cases hfold
    | cons line ls ih =>
      rw [List.foldlM_cons] at hfold
      cases hadd : addLine before line with
      | error found =>
        rw [hadd] at hfold
        cases hfold
        exact showsUnequal_of_addLine hadd session
      | ok after =>
        rw [hadd] at hfold
        exact ih after hfold
  rw [statements] at h
  cases hfold : (lines block).foldlM addLine [] with
  | error found =>
    rw [hfold] at h
    cases h
    exact hlines _ [] hfold
  | ok found =>
    rw [hfold] at h
    cases h

end Block

namespace Evaluator

variable (levels : Nat) {payload : String} {statement : Statement} {progress : Progress Value}

theorem failsWith_start (code : String) :
    FailsWith ShowsUnequal ((evaluator levels).start code) := by
  refine .bind (.lift _) fun answer => ?_
  cases answer <;> exact .pure _

theorem failsWith_required (payload : String) (action : Step Outcome) :
    FailsWith ShowsUnequal ((evaluator levels).required payload action) := by
  refine .bind (.lift _) fun outcome => ?_
  cases outcome with
  | ok value => exact .pure value
  | error raised => exact .bind (.lift _) fun message => .throw fun _ => trivial

theorem failsWith_described (statement : Statement) (value : Value) (key : String) :
    FailsWith ShowsUnequal ((evaluator levels).described statement value key) :=
  .bind (failsWith_required levels _ _) fun _ => .bind (.lift _) fun _ => .lift _

theorem failsWith_settled (value : Value) :
    FailsWith ShowsUnequal ((evaluator levels).settled value) := by
  refine .bind (.lift _) fun outcome => ?_
  cases outcome <;> exact .lift _

theorem failsWith_rejection (statement : Statement) (value : Value) (key : String) :
    FailsWith ShowsUnequal ((evaluator levels).rejection statement value key) := by
  refine .bind (.lift _) fun outcome => ?_
  cases outcome with
  | ok value => exact .lift _
  | error reason => exact failsWith_described levels statement reason key

theorem failsWith_compare {actual expected : ExceptT BlockFault Step Value}
    (hactual : FailsWith ShowsUnequal actual) (hexpected : FailsWith ShowsUnequal expected) :
    FailsWith ShowsUnequal ((evaluator levels).compare progress actual expected) := by
  refine hactual.bind fun a => hexpected.bind fun b => ?_
  intro session fault next h
  have hequals : ((evaluator levels).deepEquals a b).run session =
      some (session.heap.deepEquals a b, session) :=
    rfl
  rw [ExceptT.run_bind, StateT.run_bind, Notes.run_lift, hequals] at h
  cases hequal : session.heap.deepEquals a b with
  | true =>
    rw [hequal] at h
    cases h
  | false =>
    rw [hequal] at h
    cases h
    exact ⟨a, b, hequal, rfl, rfl⟩

theorem failsWith_step (progress : Progress Value) (statement : Statement) :
    FailsWith ShowsUnequal ((evaluator levels).step progress statement) := by
  obtain ⟨kind, payload⟩ := statement
  have hexpected : FailsWith ShowsUnequal ((evaluator levels).expected ⟨kind, payload⟩) :=
    failsWith_required levels _ _
  cases kind with
  | input => exact failsWith_start levels payload
  | output => exact failsWith_compare levels (.pure _) hexpected
  | resolve | reject =>
    exact failsWith_compare levels (failsWith_settled levels _) (.bind hexpected fun _ => .lift _)
  | rejectError | rejectErrorCode =>
    exact failsWith_compare levels (failsWith_rejection levels _ _ _) (.lift _)
  | error | errorCode =>
    exact failsWith_compare levels (failsWith_described levels _ _ _) (.lift _)

theorem failsWith_runStatements (statements : List Statement) :
    FailsWith ShowsUnequal ((evaluator levels).runStatements statements) := by
  unfold Evaluator.runStatements
  split
  case h_1 code rest =>
    refine (failsWith_start levels code).bind fun progress => ?_
    rw [discard_eq, map_eq_pure_bind]
    exact .bind (.foldlM (failsWith_step levels) rest progress) fun _ => .pure _
  case h_2 => exact .throw fun _ => trivial

/-- A block that fails with a comparison shows two values that are not equal. -/
theorem showsUnequal_of_runBlock {block : String} {session next : Session} {fault : BlockFault}
    (h : ((evaluator levels).runBlock block).run session = some (.fail fault, next)) :
    fault.ShowsUnequal next := by
  cases hblock : Block.statements block with
  | error malformed =>
    rw [runBlock, hblock] at h
    cases h
    exact Block.showsUnequal_of_statements hblock _
  | ok statements =>
    rw [runBlock_of_statements _ hblock, StateT.run_map, Option.map_eq_map,
      Option.map_eq_some_iff] at h
    obtain ⟨⟨result, last⟩, hrun, heq⟩ := h
    cases result with
    | ok => cases heq
    | error found =>
      cases heq
      exact failsWith_runStatements levels statements _ _ _ hrun

/-- **Values are shown on one line** just when no name or message within them breaks the line. A
block that fails with a comparison shows two values that are not equal, the one that it expected
and the one that there was, and the message of the fault takes one line if and only if the input
does and no name or message within one of the two values breaks the line. -/
theorem mismatch_isOneLine_iff (levels : Nat) :
    (∀ (heap : Heap) (value : Value),
      IsOneLine (heap.inspect value).toList ↔ heap.Unbroken value) ∧
    ∀ (block input expected actual : String) (session next : Session),
      ((evaluator levels).runBlock block).run session =
        some (.fail (.mismatch input expected actual), next) →
      ∃ a b, next.heap.deepEquals a b = false ∧
        expected = next.heap.inspect b ∧ actual = next.heap.inspect a ∧
        (IsOneLine (BlockFault.mismatch input expected actual).message.toList ↔
          IsOneLine input.toList ∧ next.heap.Unbroken b ∧ next.heap.Unbroken a) := by
  refine ⟨isOneLine_inspect_iff, fun block input expected actual session next h => ?_⟩
  obtain ⟨a, b, hequal, rfl, rfl⟩ := showsUnequal_of_runBlock levels h
  refine ⟨a, b, hequal, rfl, rfl, ?_⟩
  have hexpected : IsOneLine " => expected ".toList := by simp
  have hgot : IsOneLine ", but got ".toList := by simp
  have hmessage : (BlockFault.mismatch input (next.heap.inspect b) (next.heap.inspect a)).message =
      input ++ " => expected " ++ next.heap.inspect b ++ ", but got " ++ next.heap.inspect a :=
    rfl
  rw [← isOneLine_inspect_iff, ← isOneLine_inspect_iff, hmessage]
  simp only [String.toList_append, isOneLine_append, hexpected, hgot, and_true, and_assoc]

/-- Two texts that differ are told on one line. -/
theorem mismatch_isOneLine_iff_texts :
    ∃ next a b,
      ((evaluator amplyManyLevels).runBlock "> 'a\\nb'\n'c'").run Session.new =
        some (.fail (.mismatch "'a\\nb'" "'c'" "'a\\nb'"), next) ∧
      next.heap.deepEquals a b = false ∧
      next.heap.Unbroken b ∧ next.heap.Unbroken a := by
  have hfails : (((evaluator amplyManyLevels).runBlock "> 'a\\nb'\n'c'").run Session.new).map
      Prod.fst = some (.fail (.mismatch "'a\\nb'" "'c'" "'a\\nb'")) := by
    decide +kernel
  obtain ⟨⟨verdict, next⟩, hrun, rfl⟩ := Option.map_eq_some_iff.mp hfails
  obtain ⟨a, b, hequal, -, -, hline⟩ := (mismatch_isOneLine_iff amplyManyLevels).2 _ _ _ _ _ _ hrun
  have hmessage : IsOneLine
      (BlockFault.mismatch "'a\\nb'" "'c'" "'a\\nb'").message.toList := by
    decide +kernel
  exact ⟨next, a, b, hrun, hequal, (hline.mp hmessage).2⟩

/-- The message of an error is shown as it is, with the end of a line in it. -/
theorem message_breaks_line :
    (((evaluator amplyManyLevels).runBlock "> new Error('a\\nb')\n1").run Session.new).map
        Prod.fst = some (.fail (.mismatch "new Error('a\\nb')" "1" "[Error: a\nb]")) ∧
      IsOneLine "new Error('a\\nb')".toList ∧ IsOneLine "1".toList ∧
      ¬ IsOneLine "[Error: a\nb]".toList ∧
      ¬ IsOneLine
        (BlockFault.mismatch "new Error('a\\nb')" "1" "[Error: a\nb]").message.toList := by
  decide +kernel

end Evaluator

end Doctest
