import Doctest.Proofs.Check.Running

/-!
# The calls that running a block makes

Calls to the language are noted with their answers, which changes nothing about a run. The calls of
a run are then those that its statements ask for, one statement after the other, up to and including
the first that fails.
-/

namespace Doctest

/-- A call to the language with its answer. Comparisons are among the calls, since they tell which
statements are met. -/
inductive Call (V : Type) where
  | evaluate (code : String) (answer : Except V V)
  | settle (value : V) (answer : Except V V)
  | property (value : V) (key : String) (answer : Except V V)
  | compare (actual expected : V) (equal : Bool)
  deriving DecidableEq

variable {σ V α β γ : Type}

/-- Notes a call with its answer. -/
def Call.noting {m : Type → Type} [Monad m] (call : α → Call V) (action : m α) :
    StateT (List (Call V)) m α := do
  let answer ← action
  modify (· ++ [call answer])
  return answer

/-- The same language, but its calls are noted. -/
def Evaluator.noted {m : Type → Type} [Monad m] (lang : Evaluator m V) :
    Evaluator (StateT (List (Call V)) m) V where
  evaluate code := Call.noting (.evaluate code) (lang.evaluate code)
  settle value := Call.noting (.settle value) (lang.settle value)
  property value key := Call.noting (.property value key) (lang.property value key)
  record key value := liftM (lang.record key value)
  text s := liftM (lang.text s)
  display value := liftM (lang.display value)
  errorMessage raised := liftM (lang.errorMessage raised)
  deepEquals a b := Call.noting (.compare a b) (lang.deepEquals a b)
  inspect value := liftM (lang.inspect value)

/-- A run that notes calls does what the run without notes does, and of the calls that it notes and
of its result something holds. -/
def Notes (P : List (Call V) → Except BlockFault α → Prop)
    (noted : ExceptT BlockFault (StateT (List (Call V)) (StateT σ Option)) α)
    (plain : ExceptT BlockFault (StateT σ Option) α) : Prop :=
  ∀ log start,
    match plain.run.run start with
    | none => (noted.run.run log).run start = none
    | some (result, last) => ∃ calls,
      (noted.run.run log).run start = some ((result, log ++ calls), last) ∧ P calls result

namespace Notes

variable {P : List (Call V) → Except BlockFault α → Prop}
  {R : List (Call V) → Except BlockFault β → Prop}

theorem pure {a : α} (h : P [] (.ok a)) :
    Notes (σ := σ) P (Pure.pure a) (Pure.pure a) := by
  intro log start
  exact ⟨[], by simp, h⟩

theorem throw {fault : BlockFault} (h : P [] (.error fault)) :
    Notes (σ := σ) P (MonadExcept.throw fault) (MonadExcept.throw fault) := by
  intro log start
  exact ⟨[], by simp, h⟩

/-- An action by itself, as a run that can fail. -/
theorem run_lift (action : StateT σ Option α) (start : σ) :
    (liftM action : ExceptT BlockFault (StateT σ Option) α).run.run start =
      (action.run start).map fun found => (.ok found.1, found.2) := by
  simp [liftM, monadLift, MonadLift.monadLift]

/-- An action that is not noted. -/
theorem lift (action : StateT σ Option α) :
    Notes (fun calls result => calls = [] ∧ result.isOk = true)
      (liftM (liftM action : StateT (List (Call V)) (StateT σ Option) α) :
        ExceptT BlockFault (StateT (List (Call V)) (StateT σ Option)) α)
      (liftM action : ExceptT BlockFault (StateT σ Option) α) := by
  intro log start
  rw [run_lift]
  cases haction : action.run start with
  | none => simp [liftM, monadLift, MonadLift.monadLift, haction]
  | some found => exact ⟨[], by simp [liftM, monadLift, MonadLift.monadLift, haction], rfl, rfl⟩

/-- An action that is noted with its answer. -/
theorem noting (call : α → Call V) (action : StateT σ Option α) :
    Notes (fun calls result => ∃ answer, calls = [call answer] ∧ result = .ok answer)
      (liftM (Call.noting call action) :
        ExceptT BlockFault (StateT (List (Call V)) (StateT σ Option)) α)
      (liftM action : ExceptT BlockFault (StateT σ Option) α) := by
  intro log start
  rw [run_lift]
  cases haction : action.run start with
  | none => simp [liftM, monadLift, MonadLift.monadLift, Call.noting, haction]
  | some found =>
    refine ⟨[call found.1], ?_, found.1, rfl, rfl⟩
    simp [liftM, monadLift, MonadLift.monadLift, Call.noting, haction]

theorem bind {x : ExceptT BlockFault (StateT (List (Call V)) (StateT σ Option)) α}
    {y : ExceptT BlockFault (StateT σ Option) α}
    {f : α → ExceptT BlockFault (StateT (List (Call V)) (StateT σ Option)) β}
    {g : α → ExceptT BlockFault (StateT σ Option) β}
    {Q : α → List (Call V) → Except BlockFault β → Prop}
    (hx : Notes P x y) (hf : ∀ a, Notes (Q a) (f a) (g a))
    (herror : ∀ calls fault, P calls (.error fault) → R calls (.error fault))
    (hok : ∀ calls later a result, P calls (.ok a) → Q a later result →
      R (calls ++ later) result) : Notes R (x >>= f) (y >>= g) := by
  intro log start
  have hx := hx log start
  rw [ExceptT.run_bind, ExceptT.run_bind, StateT.run_bind, StateT.run_bind, StateT.run_bind]
  cases hy : y.run.run start with
  | none =>
    rw [hy] at hx
    rw [hx]
    rfl
  | some found =>
    obtain ⟨result, middle⟩ := found
    rw [hy] at hx
    obtain ⟨calls, hrun, hcalls⟩ := hx
    rw [hrun]
    cases result with
    | error fault => exact ⟨calls, rfl, herror calls fault hcalls⟩
    | ok a =>
      have hlater := hf a (log ++ calls) middle
      change match (g a).run.run middle with
        | none => _
        | some (result, last) => _
      cases hg : (g a).run.run middle with
      | none =>
        rw [hg] at hlater
        exact hlater
      | some found =>
        obtain ⟨result, last⟩ := found
        rw [hg] at hlater
        obtain ⟨later, hrun, hnoted⟩ := hlater
        exact ⟨calls ++ later, by rw [← List.append_assoc]; exact hrun,
          hok calls later a result hcalls hnoted⟩

variable {f : α → ExceptT BlockFault (StateT (List (Call V)) (StateT σ Option)) β}
  {g : α → ExceptT BlockFault (StateT σ Option) β}

/-- An action that is not noted leaves the calls to what comes after it. -/
theorem bind_lift (action : StateT σ Option α) (hf : ∀ a, Notes R (f a) (g a)) :
    Notes R (liftM (liftM action : StateT (List (Call V)) (StateT σ Option) α) >>= f)
      (liftM action >>= g) := by
  refine .bind (.lift action) hf ?_ ?_
  · rintro calls fault ⟨-, hfault⟩
    cases hfault
  · rintro calls later a result ⟨rfl, -⟩ hresult
    exact hresult

/-- An action that is noted comes before the calls of what comes after it. -/
theorem bind_noting {Q : α → List (Call V) → Except BlockFault β → Prop} (call : α → Call V)
    (action : StateT σ Option α) (hf : ∀ a, Notes (Q a) (f a) (g a))
    (h : ∀ a calls result, Q a calls result → R (call a :: calls) result) :
    Notes R (liftM (Call.noting call action) >>= f) (liftM action >>= g) := by
  refine .bind (.noting call action) hf ?_ ?_
  · rintro calls fault ⟨answer, -, hfault⟩
    cases hfault
  · rintro calls later a result ⟨answer, rfl, hanswer⟩ hresult
    cases hanswer
    exact h a later result hresult

/-- What is made without further calls of what a call gives is there if that is. -/
theorem bind_silent {C : γ → List (Call V)} {succeeds : γ → Bool}
    {x : ExceptT BlockFault (StateT (List (Call V)) (StateT σ Option)) α}
    {y : ExceptT BlockFault (StateT σ Option) α}
    (hx : Notes (fun calls found => ∃ answer, calls = C answer ∧ found.isOk = succeeds answer) x y)
    (hf : ∀ a, Notes (fun calls found => calls = [] ∧ found.isOk = true) (f a) (g a)) :
    Notes (fun calls found => ∃ answer, calls = C answer ∧ found.isOk = succeeds answer)
      (x >>= f) (y >>= g) := by
  refine .bind hx hf (fun calls fault h => h) ?_
  rintro calls later value found ⟨answer, rfl, hanswer⟩ ⟨rfl, hfound⟩
  exact ⟨answer, List.append_nil _, hfound.trans hanswer⟩

end Notes

/-- The calls by which a statement gets what is to be compared, and whether it gets that. -/
inductive Gathers (result : V) : Statement → List (Call V) → Bool → Prop
  | output (code : String) (answer : Except V V) :
      Gathers result ⟨.output, code⟩ [.evaluate code answer] answer.isOk
  | settled {kind : StatementKind} (code : String) (outcome answer : Except V V) :
      kind ∈ [.resolve, .reject] →
      Gathers result ⟨kind, code⟩ [.settle result outcome, .evaluate code answer] answer.isOk
  | fulfilled {kind : StatementKind} (text : String) (value : V) :
      kind ∈ [.rejectError, .rejectErrorCode] →
      Gathers result ⟨kind, text⟩ [.settle result (.ok value)] true
  | rejected {kind : StatementKind} {key : String} (text : String) (reason : V)
      (answer : Except V V) :
      (kind, key) ∈ [(.rejectError, "message"), (.rejectErrorCode, "errorCode")] →
      Gathers result ⟨kind, text⟩ [.settle result (.error reason), .property reason key answer]
        answer.isOk
  | described {kind : StatementKind} {key : String} (text : String) (answer : Except V V) :
      (kind, key) ∈ [(.error, "message"), (.errorCode, "code")] →
      Gathers result ⟨kind, text⟩ [.property result key answer] answer.isOk

/-- The calls of one statement, from the result that there is to the one that there is after it;
none if the statement fails. -/
inductive Takes : Option V → Statement → List (Call V) → Option V → Prop
  | input (before : Option V) (code : String) (answer : Except V V) :
      Takes before ⟨.input, code⟩ [.evaluate code answer] (some (Evaluator.captured answer))
  | raised {result : V} {statement : Statement} {calls : List (Call V)} :
      Gathers result statement calls false → Takes (some result) statement calls none
  | unmet {result : V} {statement : Statement} {calls : List (Call V)} (actual expected : V) :
      Gathers result statement calls true → (statement.kind = .output → actual = result) →
      Takes (some result) statement (calls ++ [.compare actual expected false]) none
  | met {result : V} {statement : Statement} {calls : List (Call V)} (actual expected : V) :
      Gathers result statement calls true → (statement.kind = .output → actual = result) →
      Takes (some result) statement (calls ++ [.compare actual expected true]) (some actual)

/-- The calls of statements one after the other, up to and including the first that fails, and
whether none does. -/
inductive Walks : Option V → List Statement → List (Call V) → Bool → Prop
  | done (before : Option V) : Walks before [] [] true
  | failed {before : Option V} {statement : Statement} {calls : List (Call V)}
      (rest : List Statement) : Takes before statement calls none →
      Walks before (statement :: rest) calls false
  | passed {before : Option V} {statement : Statement} {calls later : List (Call V)} {result : V}
      {rest : List Statement} {passes : Bool} : Takes before statement calls (some result) →
      Walks (some result) rest later passes →
      Walks before (statement :: rest) (calls ++ later) passes

namespace Evaluator

variable (lang : Evaluator (StateT σ Option) V)

theorem notes_start (before : Option V) (code : String) :
    Notes (fun calls found =>
        Takes before ⟨.input, code⟩ calls (found.toOption.map Progress.result))
      (lang.noted.start code) (lang.start code) := by
  refine .bind_noting (.evaluate code) _ (Q := fun answer calls found =>
    calls = [] ∧ found = .ok ⟨code, captured answer⟩) (fun answer => ?_) ?_
  · cases answer <;> exact .pure ⟨rfl, rfl⟩
  · rintro answer _ _ ⟨rfl, rfl⟩
    exact .input before code answer

/-- A value that has to be there is there if the call for it gives one. -/
theorem notes_required (payload : String) (call : Except V V → Call V)
    (action : StateT σ Option (Except V V)) :
    Notes (fun calls found => ∃ answer, calls = [call answer] ∧ found.isOk = answer.isOk)
      (lang.noted.required payload (Call.noting call action)) (lang.required payload action) := by
  refine .bind_noting call action (Q := fun answer calls found =>
    calls = [] ∧ found.isOk = answer.isOk) (fun answer => ?_) ?_
  · cases answer with
    | ok value => exact .pure ⟨rfl, rfl⟩
    | error raised => exact .bind_lift _ fun _ => .throw ⟨rfl, rfl⟩
  · rintro answer _ found ⟨rfl, hfound⟩
    exact ⟨answer, rfl, hfound⟩

theorem notes_expected (statement : Statement) :
    Notes (fun calls found => ∃ answer, calls = [.evaluate statement.payload answer] ∧
        found.isOk = answer.isOk)
      (lang.noted.expected statement) (lang.expected statement) :=
  lang.notes_required statement.payload _ _

theorem notes_described (statement : Statement) (value : V) (key : String) :
    Notes (fun calls found => ∃ answer, calls = [.property value key answer] ∧
        found.isOk = answer.isOk)
      (lang.noted.described statement value key) (lang.described statement value key) :=
  .bind_silent (lang.notes_required statement.payload _ _) fun _ =>
    .bind_lift _ fun _ => .lift _

theorem notes_stated (statement : Statement) :
    Notes (fun calls found => calls = [] ∧ found.isOk = true)
      (lang.noted.stated statement) (lang.stated statement) :=
  .lift _

theorem notes_settled (value : V) :
    Notes (fun calls found => ∃ outcome, calls = [.settle value outcome] ∧ found.isOk = true)
      (lang.noted.settled value) (lang.settled value) := by
  refine .bind_noting (.settle value) _ (Q := fun _ calls found =>
    calls = [] ∧ found.isOk = true) (fun outcome => ?_) ?_
  · cases outcome <;> exact .lift _
  · rintro outcome _ found ⟨rfl, hfound⟩
    exact ⟨outcome, rfl, hfound⟩

/-- What is called once a value has settled, if it must be rejected. -/
def CalledAfter (key : String) (outcome : Except V V) (calls : List (Call V))
    (found : Except BlockFault V) : Prop :=
  match outcome with
  | .ok _ => calls = [] ∧ found.isOk = true
  | .error reason => ∃ answer, calls = [.property reason key answer] ∧ found.isOk = answer.isOk

theorem notes_rejection (statement : Statement) (value : V) (key : String) :
    Notes (fun calls found =>
        (∃ fulfilled, calls = [.settle value (.ok fulfilled)] ∧ found.isOk = true) ∨
          ∃ reason answer, calls = [.settle value (.error reason), .property reason key answer] ∧
            found.isOk = answer.isOk)
      (lang.noted.rejection statement value key) (lang.rejection statement value key) := by
  refine .bind_noting (.settle value) _ (Q := CalledAfter key) (fun outcome => ?_) ?_
  · cases outcome with
    | ok fulfilled => exact .lift _
    | error reason => exact lang.notes_described statement reason key
  · intro outcome calls found h
    cases outcome with
    | ok fulfilled =>
      obtain ⟨rfl, hfound⟩ := h
      exact .inl ⟨fulfilled, rfl, hfound⟩
    | error reason =>
      obtain ⟨answer, rfl, hfound⟩ := h
      exact .inr ⟨reason, answer, rfl, hfound⟩

/-- A comparison makes the calls for its two sides and then compares them, unless one of them is
not there. -/
theorem notes_compare {progress : Progress V} {statement : Statement}
    {P Q : List (Call V) → Except BlockFault V → Prop}
    {actual expected : ExceptT BlockFault (StateT (List (Call V)) (StateT σ Option)) V}
    {actual' expected' : ExceptT BlockFault (StateT σ Option) V}
    (hactual : Notes P actual actual') (hexpected : Notes Q expected expected')
    (hfailed : ∀ calls fault, P calls (.error fault) →
      Gathers progress.result statement calls false)
    (hgathered : ∀ calls later value found, P calls (.ok value) → Q later found →
      Gathers progress.result statement (calls ++ later) found.isOk ∧
        (statement.kind = .output → value = progress.result)) :
    Notes (fun calls found =>
        Takes (some progress.result) statement calls (found.toOption.map Progress.result))
      (lang.noted.compare progress actual expected) (lang.compare progress actual' expected') := by
  -- What the statement gathers is known only when both sides are there: until then, the calls that
  -- were made before stay quantified in what is said of the rest.
  refine .bind hactual (Q := fun value later found => ∀ calls, P calls (.ok value) →
    Takes (some progress.result) statement (calls ++ later) (found.toOption.map Progress.result))
    (fun value => ?_) (fun calls fault h => .raised (hfailed calls fault h))
    (fun calls later value found h hlater => hlater calls h)
  refine .bind hexpected (Q := fun wanted later found => ∀ calls, Gathers progress.result statement
    calls true → (statement.kind = .output → value = progress.result) →
      Takes (some progress.result) statement (calls ++ later) (found.toOption.map Progress.result))
    (fun wanted => ?_) ?_ ?_
  · refine .bind_noting (.compare value wanted) _ (Q := fun equal later found => later = [] ∧
      found.toOption.map Progress.result = if equal then some value else none) (fun equal => ?_) ?_
    · cases equal with
      | true => exact .pure ⟨rfl, rfl⟩
      | false => exact .bind_lift _ fun _ => .bind_lift _ fun _ => .throw ⟨rfl, rfl⟩
    · rintro equal _ found ⟨rfl, hfound⟩ calls hgathers hvalue
      rw [hfound]
      cases equal with
      | true => exact .met value wanted hgathers hvalue
      | false => exact .unmet value wanted hgathers hvalue
  · intro later fault hlater calls hcalls
    exact .raised (hgathered calls later value _ hcalls hlater).1
  · intro later more wanted found hlater hmore calls hcalls
    obtain ⟨hgathers, hvalue⟩ := hgathered calls later value _ hcalls hlater
    rw [← List.append_assoc]
    exact hmore _ hgathers hvalue

section Step

variable (progress : Progress V) {kind : StatementKind} (payload : String)

theorem notes_compare_settled (tag : String) (hkind : kind ∈ [.resolve, .reject]) :
    Notes (fun calls found =>
        Takes (some progress.result) ⟨kind, payload⟩ calls (found.toOption.map Progress.result))
      (lang.noted.compare progress (lang.noted.settled progress.result)
        (lang.noted.expected ⟨kind, payload⟩ >>= fun value => lang.noted.record tag value))
      (lang.compare progress (lang.settled progress.result)
        (lang.expected ⟨kind, payload⟩ >>= fun value => lang.record tag value)) := by
  refine lang.notes_compare (lang.notes_settled _)
    (.bind_silent (lang.notes_expected _) fun _ => .lift _) ?_ ?_
  · rintro calls fault ⟨outcome, -, hfault⟩
    cases hfault
  · rintro calls later value found ⟨outcome, rfl, -⟩ ⟨answer, rfl, hfound⟩
    refine ⟨hfound ▸ .settled payload outcome answer hkind, ?_⟩
    rintro rfl
    simp at hkind

theorem notes_compare_rejection {key : String}
    (hkind : (kind, key) ∈ [(.rejectError, "message"), (.rejectErrorCode, "errorCode")]) :
    Notes (fun calls found =>
        Takes (some progress.result) ⟨kind, payload⟩ calls (found.toOption.map Progress.result))
      (lang.noted.compare progress (lang.noted.rejection ⟨kind, payload⟩ progress.result key)
        (lang.noted.stated ⟨kind, payload⟩))
      (lang.compare progress (lang.rejection ⟨kind, payload⟩ progress.result key)
        (lang.stated ⟨kind, payload⟩)) := by
  have hrejects : kind ∈ [StatementKind.rejectError, .rejectErrorCode] := by
    simpa using List.mem_map_of_mem (f := Prod.fst) hkind
  refine lang.notes_compare (lang.notes_rejection _ _ key) (lang.notes_stated _) ?_ ?_
  · rintro calls fault (⟨fulfilled, -, hfault⟩ | ⟨reason, answer, rfl, hfault⟩)
    · cases hfault
    · have hraised : false = answer.isOk := hfault
      exact hraised ▸ .rejected payload reason answer hkind
  · rintro calls later value found hcalls ⟨rfl, hfound⟩
    rw [List.append_nil]
    refine ⟨?_, ?_⟩
    · rcases hcalls with ⟨fulfilled, rfl, -⟩ | ⟨reason, answer, rfl, hvalue⟩
      · exact hfound ▸ .fulfilled payload fulfilled hrejects
      · have hgiven : found.isOk = answer.isOk := hfound.trans hvalue
        exact hgiven ▸ .rejected payload reason answer hkind
    · rintro rfl
      simp at hrejects

theorem notes_compare_described {key : String}
    (hkind : (kind, key) ∈ [(.error, "message"), (.errorCode, "code")]) :
    Notes (fun calls found =>
        Takes (some progress.result) ⟨kind, payload⟩ calls (found.toOption.map Progress.result))
      (lang.noted.compare progress (lang.noted.described ⟨kind, payload⟩ progress.result key)
        (lang.noted.stated ⟨kind, payload⟩))
      (lang.compare progress (lang.described ⟨kind, payload⟩ progress.result key)
        (lang.stated ⟨kind, payload⟩)) := by
  refine lang.notes_compare (lang.notes_described _ _ key) (lang.notes_stated _) ?_ ?_
  · rintro calls fault ⟨answer, rfl, hfault⟩
    have hraised : false = answer.isOk := hfault
    exact hraised ▸ .described payload answer hkind
  · rintro calls later value found ⟨answer, rfl, hvalue⟩ ⟨rfl, hfound⟩
    have hgiven : found.isOk = answer.isOk := hfound.trans hvalue
    rw [List.append_nil]
    refine ⟨hgiven ▸ .described payload answer hkind, ?_⟩
    rintro rfl
    simp at hkind

end Step

/-- A statement makes the calls that it asks for. -/
theorem notes_step (progress : Progress V) (statement : Statement) :
    Notes (fun calls found =>
        Takes (some progress.result) statement calls (found.toOption.map Progress.result))
      (lang.noted.step progress statement) (lang.step progress statement) := by
  obtain ⟨kind, payload⟩ := statement
  cases kind with
  | input => exact lang.notes_start _ payload
  | output =>
    refine lang.notes_compare (.pure (P := fun calls found => calls = [] ∧
      found = .ok progress.result) ⟨rfl, rfl⟩) (lang.notes_expected _) ?_ ?_
    · rintro calls fault ⟨-, hfault⟩
      cases hfault
    · rintro calls later value found ⟨rfl, hvalue⟩ ⟨answer, rfl, hfound⟩
      cases hvalue
      exact ⟨hfound ▸ .output payload answer, fun _ => rfl⟩
  | resolve => exact lang.notes_compare_settled progress payload "Resolve" (by simp)
  | reject => exact lang.notes_compare_settled progress payload "Reject" (by simp)
  | rejectError => exact lang.notes_compare_rejection progress payload (by simp)
  | rejectErrorCode => exact lang.notes_compare_rejection progress payload (by simp)
  | error => exact lang.notes_compare_described progress payload (by simp)
  | errorCode => exact lang.notes_compare_described progress payload (by simp)

/-- Statements make their calls one after the other, and none after the first that fails. -/
theorem notes_foldlM_step (progress : Progress V) (statements : List Statement) :
    Notes (fun calls found => Walks (some progress.result) statements calls found.isOk)
      (statements.foldlM lang.noted.step progress) (statements.foldlM lang.step progress) := by
  induction statements generalizing progress with
  | nil => exact .pure (.done _)
  | cons statement rest ih =>
    rw [List.foldlM_cons, List.foldlM_cons]
    refine .bind (lang.notes_step progress statement) ih ?_ ?_
    · intro calls fault h
      exact .failed rest h
    · intro calls later next found h hlater
      exact .passed h hlater

/-- The statements of a block make their calls from the first input on. -/
theorem notes_runStatements (code : String) (rest : List Statement) :
    Notes (fun calls found => Walks none (⟨.input, code⟩ :: rest) calls found.isOk)
      (lang.noted.runStatements (⟨.input, code⟩ :: rest))
      (lang.runStatements (⟨.input, code⟩ :: rest)) := by
  rw [runStatements, runStatements]
  refine .bind (lang.notes_start none code) (Q := fun progress later found =>
    Walks (some progress.result) rest later found.isOk) (fun progress => ?_) ?_ ?_
  · rw [discard_eq, discard_eq, ← bind_pure_comp, ← bind_pure_comp]
    refine .bind (lang.notes_foldlM_step progress rest)
      (Q := fun _ later found => later = [] ∧ found.isOk = true) (fun _ => .pure ⟨rfl, rfl⟩)
      (fun calls fault h => h) ?_
    rintro calls later next found h ⟨rfl, hfound⟩
    rw [List.append_nil, hfound]
    exact h
  · intro calls fault h
    exact .failed rest h
  · intro calls later progress found h hlater
    exact .passed h hlater

end Evaluator

end Doctest
