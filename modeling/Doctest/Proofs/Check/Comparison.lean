import Doctest.Proofs.Check.Running
import Doctest.Proofs.Script.DeepEquality
import Doctest.Proofs.Script.Keeping.Sessions
import Doctest.Proofs.Script.Making

/-!
# What makes an expectation pass

An expected result is met if what its line asks for is the case: of the result itself, of what it
settles as, and of what the code of the line gives. The records and texts that are made in order to
be compared do not show in that, whatever the values are.
-/

namespace Doctest

open Script

namespace Script

/-- The session after an object with one property was made. -/
def Session.recording (session : Session) (key : String) (value : Value) : Session :=
  ⟨⟨(session.heap.alloc .object (Dict.ofList [(key, value)])).2, session.machine.depth⟩,
    session.scope⟩

/-- The object that is made next. -/
def Session.fresh (session : Session) : Ref .object :=
  ⟨session.heap.count .object⟩

/-- The text of a property of a value: the value has properties, and the property it has under a
key is converted to that text. -/
def Says (session : Session) (value : Value) (key text : String) : Prop :=
  value.isNullish = false ∧ ∃ found next,
    (Step.property value key).run session = some (.ok found, next) ∧
      next.heap.text? found = some text

/-- What the lines of a block ask for. The records under which the values are compared that a
result settles as are made before the code of the line is run. -/
inductive Meets (levels : Nat) (session : Session) (result : Value) : Statement → Prop
  | output {code : String} {value : Value} {next : Session}
    (hvalue : (Step.evaluate levels code).run session = some (.ok value, next))
    (hequal : next.heap.deepEquals result value = true) :
    Meets levels session result ⟨.output, code⟩
  | resolve {code : String} {fulfilled value : Value} {settled next : Session}
    (hsettled : (Step.settle levels result).run session = some (.ok fulfilled, settled))
    (hvalue : (Step.evaluate levels code).run (settled.recording "Resolve" fulfilled) =
      some (.ok value, next))
    (hequal : next.heap.deepEquals fulfilled value = true) :
    Meets levels session result ⟨.resolve, code⟩
  | reject {code : String} {reason value : Value} {settled next : Session}
    (hsettled : (Step.settle levels result).run session = some (.error reason, settled))
    (hvalue : (Step.evaluate levels code).run (settled.recording "Reject" reason) =
      some (.ok value, next))
    (hequal : next.heap.deepEquals reason value = true) :
    Meets levels session result ⟨.reject, code⟩
  | rejectError {text : String} {reason : Value} {settled : Session}
    (hsettled : (Step.settle levels result).run session = some (.error reason, settled))
    (hsaid : Says settled reason "message" text) :
    Meets levels session result ⟨.rejectError, text⟩
  | rejectErrorCode {text : String} {reason : Value} {settled : Session}
    (hsettled : (Step.settle levels result).run session = some (.error reason, settled))
    (hsaid : Says settled reason "errorCode" text) :
    Meets levels session result ⟨.rejectErrorCode, text⟩
  | error {text : String} (hsaid : Says session result "message" text) :
    Meets levels session result ⟨.error, text⟩
  | errorCode {text : String} (hsaid : Says session result "code" text) :
    Meets levels session result ⟨.errorCode, text⟩

/-- Reading a property of `undefined` or `null` raises an error. -/
theorem property_of_isNullish {value : Value} (h : value.isNullish = true) (key : String)
    (start : Machine) : ∃ failure, Eval.property value key start = Eval.fail failure start := by
  have hproperty : Eval.property value key =
      (Eval.text value >>= fun shown => Eval.fail (.readOfNothing shown key)) := by
    cases value with
    | undefined | null => rfl
    | _ => cases h
  have htext : start.heap.text? value = some (start.heap.plainText value) :=
    Heap.text?_of_not_array (by rintro ref rfl; cases h)
  rw [hproperty, Eval.bind_apply, Eval.text, Eval.ofHeap?_apply, htext]
  exact ⟨_, rfl⟩

end Script

/-- A run ends well, with a result and in a session. -/
def EndsWell {α : Type} (action : ExceptT BlockFault Step α) (session : Session) (a : α)
    (next : Session) : Prop :=
  action.run.run session = some (.ok a, next)

namespace EndsWell

variable {α β : Type} {session next : Session}

theorem pure_iff {a b : α} : EndsWell (pure a) session b next ↔ a = b ∧ session = next := by
  constructor
  · rintro ⟨⟩
    exact ⟨rfl, rfl⟩
  · rintro ⟨rfl, rfl⟩
    rfl

theorem not_throw {fault : BlockFault} {a : α} : ¬ EndsWell (throw fault) session a next := by
  rintro ⟨⟩

theorem lift_iff {action : Step α} {a : α} :
    EndsWell (liftM action) session a next ↔ action.run session = some (a, next) := by
  unfold EndsWell
  have hrun : (liftM action : ExceptT BlockFault Step α).run.run session =
      (action.run session).map fun found => (.ok found.1, found.2) := by
    simp [liftM, monadLift, MonadLift.monadLift]
  rw [hrun, Option.map_eq_some_iff]
  constructor
  · rintro ⟨⟨found, last⟩, hfound, ⟨⟩⟩
    exact hfound
  · exact fun hfound => ⟨(a, next), hfound, rfl⟩

theorem bind_iff {x : ExceptT BlockFault Step α} {f : α → ExceptT BlockFault Step β} {b : β} :
    EndsWell (x >>= f) session b next ↔
      ∃ a middle, EndsWell x session a middle ∧ EndsWell (f a) middle b next := by
  unfold EndsWell
  rw [ExceptT.run_bind, StateT.run_bind]
  constructor
  · intro h
    obtain ⟨⟨_ | a, middle⟩, hx, hf⟩ := Option.bind_eq_some_iff.mp h
    · cases hf
    · exact ⟨a, middle, hx, hf⟩
  · rintro ⟨a, middle, hx, hf⟩
    rw [hx]
    exact hf

theorem map_iff {x : ExceptT BlockFault Step α} {f : α → β} {b : β} :
    EndsWell (f <$> x) session b next ↔ ∃ a, EndsWell x session a next ∧ f a = b := by
  rw [map_eq_pure_bind, bind_iff]
  constructor
  · rintro ⟨a, middle, hx, hf⟩
    obtain ⟨rfl, rfl⟩ := pure_iff.mp hf
    exact ⟨a, hx, rfl⟩
  · rintro ⟨a, hx, rfl⟩
    exact ⟨a, next, hx, pure_iff.mpr ⟨rfl, rfl⟩⟩

end EndsWell

namespace Evaluator

variable {levels : Nat} {session next : Session} {statement : Statement} {value found : Value}

open EndsWell

theorem endsWell_required {payload : String} {action : Step Outcome} :
    EndsWell ((evaluator levels).required payload action) session value next ↔
      action.run session = some (.ok value, next) := by
  unfold Evaluator.required
  rw [bind_iff]
  constructor
  · rintro ⟨outcome, middle, haction, hvalue⟩
    rw [lift_iff] at haction
    cases outcome with
    | ok found =>
      obtain ⟨rfl, rfl⟩ := pure_iff.mp hvalue
      exact haction
    | error raised =>
      obtain ⟨message, later, -, hthrow⟩ := bind_iff.mp hvalue
      exact (not_throw hthrow).elim
  · exact fun haction => ⟨.ok value, next, lift_iff.mpr haction, pure_iff.mpr ⟨rfl, rfl⟩⟩

theorem endsWell_expected :
    EndsWell ((evaluator levels).expected statement) session value next ↔
      (Step.evaluate levels statement.payload).run session = some (.ok value, next) :=
  endsWell_required

theorem endsWell_stated :
    EndsWell ((evaluator levels).stated statement) session value next ↔
      .string (statement.kind.opening ++ statement.payload) = value ∧ session = next := by
  refine lift_iff.trans ⟨?_, ?_⟩
  · rintro ⟨⟩
    exact ⟨rfl, rfl⟩
  · rintro ⟨rfl, rfl⟩
    rfl

/-- The text that a property makes, after the opening of the line. -/
theorem endsWell_described {key : String} :
    EndsWell ((evaluator levels).described statement value key) session found next ↔
      ∃ text, .string (statement.kind.opening ++ text) = found ∧ ∃ part,
        (Step.property value key).run session = some (.ok part, next) ∧
          next.heap.text? part = some text := by
  unfold Evaluator.described
  rw [bind_iff]
  constructor
  · rintro ⟨part, middle, hpart, hfound⟩
    obtain ⟨text, later, htext, hfound⟩ := bind_iff.mp hfound
    obtain ⟨text', htext', hpair⟩ := Option.map_eq_some_iff.mp (lift_iff.mp htext)
    cases hpair
    cases lift_iff.mp hfound
    exact ⟨text, rfl, part, endsWell_required.mp hpart, htext'⟩
  · rintro ⟨text, rfl, part, hpart, htext⟩
    refine ⟨part, next, endsWell_required.mpr hpart, bind_iff.mpr ⟨text, next, ?_, ?_⟩⟩
    · exact lift_iff.mpr (Option.map_eq_some_iff.mpr ⟨text, htext, rfl⟩)
    · exact lift_iff.mpr rfl

theorem endsWell_record {key : String} :
    EndsWell (liftM ((evaluator levels).record key value)) session found next ↔
      .object session.fresh = found ∧ session.recording key value = next := by
  refine lift_iff.trans ⟨?_, ?_⟩
  · rintro ⟨⟩
    exact ⟨rfl, rfl⟩
  · rintro ⟨rfl, rfl⟩
    rfl

/-- The key under which an outcome is recorded. -/
def settledAs : Outcome → String
  | .ok _ => "Resolve"
  | .error _ => "Reject"

/-- The record of how a value settles. -/
theorem endsWell_settled :
    EndsWell ((evaluator levels).settled value) session found next ↔
      ∃ outcome middle, (Step.settle levels value).run session = some (outcome, middle) ∧
        .object middle.fresh = found ∧
        middle.recording (settledAs outcome) (captured outcome) = next := by
  unfold Evaluator.settled
  rw [bind_iff]
  refine exists₂_congr fun outcome middle => and_congr lift_iff ?_
  cases outcome <;> exact endsWell_record

/-- A value that is fulfilled makes a record, which is no text, and one that is rejected the text
of a property. -/
theorem endsWell_rejection {key : String} :
    EndsWell ((evaluator levels).rejection statement value key) session found next ↔
      (∃ fulfilled middle, (Step.settle levels value).run session = some (.ok fulfilled, middle) ∧
        .object middle.fresh = found ∧ middle.recording "Resolve" fulfilled = next) ∨
      ∃ reason middle, (Step.settle levels value).run session = some (.error reason, middle) ∧
        EndsWell ((evaluator levels).described statement reason key) middle found next := by
  unfold Evaluator.rejection
  rw [bind_iff]
  constructor
  · rintro ⟨outcome, middle, hsettled, hfound⟩
    rw [lift_iff] at hsettled
    cases outcome with
    | ok fulfilled => exact .inl ⟨fulfilled, middle, hsettled, endsWell_record.mp hfound⟩
    | error reason => exact .inr ⟨reason, middle, hsettled, hfound⟩
  · rintro (⟨fulfilled, middle, hsettled, hfound⟩ | ⟨reason, middle, hsettled, hfound⟩)
    · exact ⟨.ok fulfilled, middle, lift_iff.mpr hsettled, endsWell_record.mpr hfound⟩
    · exact ⟨.error reason, middle, lift_iff.mpr hsettled, hfound⟩

/-- A comparison passes if what is compared is there and equal in the end. -/
theorem endsWell_compare {progress result : Progress Value}
    {actual expected : ExceptT BlockFault Step Value} :
    EndsWell ((evaluator levels).compare progress actual expected) session result next ↔
      ∃ a middle b, EndsWell actual session a middle ∧ EndsWell expected middle b next ∧
        next.heap.deepEquals a b = true ∧ { progress with result := a } = result := by
  unfold Evaluator.compare
  rw [bind_iff]
  constructor
  · rintro ⟨a, middle, ha, hrest⟩
    obtain ⟨b, later, hb, hrest⟩ := bind_iff.mp hrest
    obtain ⟨equal, last, hequal, hrest⟩ := bind_iff.mp hrest
    cases lift_iff.mp hequal
    cases hdeep : later.heap.deepEquals a b with
    | true =>
      rw [hdeep] at hrest
      obtain ⟨hresult, rfl⟩ := pure_iff.mp hrest
      exact ⟨a, middle, b, ha, hb, hdeep, hresult⟩
    | false =>
      rw [hdeep] at hrest
      obtain ⟨_, _, -, hrest⟩ := bind_iff.mp hrest
      obtain ⟨_, _, -, hrest⟩ := bind_iff.mp hrest
      exact (not_throw hrest).elim
  · rintro ⟨a, middle, b, ha, hb, hdeep, hresult⟩
    refine ⟨a, middle, ha, bind_iff.mpr ⟨b, next, hb, bind_iff.mpr ⟨true, next, ?_, ?_⟩⟩⟩
    · refine lift_iff.mpr ?_
      rw [← hdeep]
      rfl
    · exact pure_iff.mpr ⟨hresult, rfl⟩

/-! ### What is compared does not show -/

/-- Records that were made of values around an evaluation are equal if they have the same key and
the values are equal. -/
theorem deepEquals_recording {settled last : Session} {a b : Value} {key other code : String}
    (hwhole : settled.Whole) (ha : settled.Holds a)
    (hb : (Step.evaluate levels code).run (settled.recording key a) = some (.ok b, last)) :
    (last.recording other b).heap.deepEquals (.object settled.fresh) (.object last.fresh) = true ↔
      key = other ∧ last.heap.deepEquals a b = true := by
  have hrecorded : (settled.recording key a).Closed (· = settled.fresh.place) :=
    ⟨hwhole.heap.alloc_apart _, fun frame hmem => (hwhole.scope frame hmem).beside _⟩
  have hkept := Step.evaluate_kept hrecorded hb
  have hlt : settled.fresh.index < last.heap.count .object :=
    hkept.closed.heap.apart_lt settled.fresh.place rfl
  have hne : settled.fresh ≠ last.fresh := by
    intro heq
    rw [heq] at hlt
    exact Nat.lt_irrefl _ hlt
  have hfirst : last.heap.get settled.fresh = Dict.ofList [(key, a)] := by
    rw [hkept.same settled.fresh rfl]
    exact (settled.heap.get_alloc _ _).trans (if_pos rfl)
  have hstays {kind : CellKind} (ref : Ref kind) (href : ref.place ≠ last.fresh.place) :
      (last.recording other b).heap.get ref = last.heap.get ref :=
    last.heap.get_alloc_of_place_ne _ ref href
  have hplace : settled.fresh.place ≠ last.fresh.place := fun heq =>
    hne (congrArg (fun place : Place => (⟨place.index⟩ : Ref .object)) heq)
  have hlast : (last.recording other b).heap.get last.fresh = Dict.ofList [(other, b)] :=
    (last.heap.get_alloc _ _).trans (if_pos rfl)
  have hsame : (last.recording other b).heap.deepEquals a b = last.heap.deepEquals a b := by
    have hbeside : a.Of (· = settled.fresh.place) (settled.recording key a).heap :=
      ha.mono fun _ hhas => hhas.beside _
    refine deepEquals_of_same hkept.closed.heap (fun ref href => hstays ref ?_)
      (hbeside.later hkept.grows) hkept.found
    intro heq
    have hindex := href.1
    rw [heq] at hindex
    exact Nat.lt_irrefl _ hindex
  rw [deepEquals_object_of_get hne ((hstays _ hplace).trans hfirst) hlast, hsame]

theorem isNullish_eq_false_of_property {key : String} {outcome : Value}
    (h : (Step.property value key).run session = some (.ok outcome, next)) :
    value.isNullish = false := by
  by_contra hnullish
  rw [Bool.not_eq_false] at hnullish
  obtain ⟨failure, hraised⟩ := property_of_isNullish hnullish key session.machine
  simp only [StateT.run, Step.property, Step.ofEval, hraised] at h
  cases h

/-- The text that is made of a property is the one of the line if the property says so. -/
theorem described_equals_stated_iff {key : String} {progress : Progress Value} :
    (∃ result last, EndsWell ((evaluator levels).compare progress
      ((evaluator levels).described statement value key) ((evaluator levels).stated statement))
        session result last) ↔ Says session value key statement.payload := by
  constructor
  · rintro ⟨result, last, hends⟩
    obtain ⟨a, middle, b, ha, hb, hequal, -⟩ := endsWell_compare.mp hends
    obtain ⟨text, rfl, part, hpart, htext⟩ := endsWell_described.mp ha
    obtain ⟨rfl, rfl⟩ := endsWell_stated.mp hb
    rw [deepEquals_string, String.append_right_inj] at hequal
    subst hequal
    exact ⟨isNullish_eq_false_of_property hpart, part, middle, hpart, htext⟩
  · rintro ⟨-, part, last, hpart, htext⟩
    have hdescribed : EndsWell ((evaluator levels).described statement value key) session
        (.string (statement.kind.opening ++ statement.payload)) last :=
      endsWell_described.mpr ⟨_, rfl, part, hpart, htext⟩
    exact ⟨_, last, endsWell_compare.mpr ⟨_, last, _, hdescribed, endsWell_stated.mpr ⟨rfl, rfl⟩,
      deepEquals_string.mpr rfl, rfl⟩⟩

/-- The record of an outcome is the one of the line if the outcome has its key, and the line gives
a value equal to it. -/
theorem settled_equals_expected_iff {key : String} {progress : Progress Value}
    (hwhole : session.Whole) (hresult : session.Holds progress.result) :
    (∃ result last, EndsWell ((evaluator levels).compare progress
      ((evaluator levels).settled progress.result)
      ((evaluator levels).expected statement >>= fun value => (evaluator levels).record key value))
        session result last) ↔
      ∃ outcome settled value next,
        (Step.settle levels progress.result).run session = some (outcome, settled) ∧
        settledAs outcome = key ∧
        (Step.evaluate levels statement.payload).run
          (settled.recording (settledAs outcome) (captured outcome)) = some (.ok value, next) ∧
        next.heap.deepEquals (captured outcome) value = true := by
  have hsettled {outcome : Outcome} {settled : Session}
      (hrun : (Step.settle levels progress.result).run session = some (outcome, settled)) :
      settled.Whole ∧ settled.Holds (captured outcome) := by
    have hkept := Step.settle_kept hwhole hresult hrun
    refine ⟨hkept.closed, ?_⟩
    have hfound := hkept.found
    cases outcome <;> exact hfound
  constructor
  · rintro ⟨result, last, hends⟩
    obtain ⟨a, middle, b, ha, hb, hequal, -⟩ := endsWell_compare.mp hends
    obtain ⟨outcome, settled, hrun, rfl, rfl⟩ := endsWell_settled.mp ha
    obtain ⟨value, next, hvalue, hrecord⟩ := bind_iff.mp hb
    obtain ⟨rfl, rfl⟩ := endsWell_record.mp hrecord
    have hvalue := endsWell_expected.mp hvalue
    have hpair := (deepEquals_recording (hsettled hrun).1 (hsettled hrun).2 hvalue).mp hequal
    exact ⟨outcome, settled, value, next, hrun, hpair.1, hvalue, hpair.2⟩
  · rintro ⟨outcome, settled, value, next, hrun, hkey, hvalue, hequal⟩
    have hrecords :=
      (deepEquals_recording (hsettled hrun).1 (hsettled hrun).2 hvalue).mpr ⟨hkey, hequal⟩
    refine ⟨_, _, endsWell_compare.mpr ⟨_, settled.recording (settledAs outcome) (captured outcome),
      _, ?_, bind_iff.mpr ⟨value, next, ?_, ?_⟩, hrecords, rfl⟩⟩
    · exact endsWell_settled.mpr ⟨outcome, settled, hrun, rfl, rfl⟩
    · exact endsWell_expected.mpr hvalue
    · exact endsWell_record.mpr ⟨rfl, rfl⟩

/-- What a rejection says is the text of the line; what is fulfilled makes no text. -/
theorem rejection_equals_stated_iff {key : String} {progress : Progress Value} :
    (∃ result last, EndsWell ((evaluator levels).compare progress
      ((evaluator levels).rejection statement progress.result key)
      ((evaluator levels).stated statement)) session result last) ↔
      ∃ reason settled,
        (Step.settle levels progress.result).run session = some (.error reason, settled) ∧
        Says settled reason key statement.payload := by
  constructor
  · rintro ⟨result, last, hends⟩
    obtain ⟨a, middle, b, ha, hb, hequal, hprogress⟩ := endsWell_compare.mp hends
    rcases endsWell_rejection.mp ha with
      ⟨fulfilled, settled, -, rfl, rfl⟩ | ⟨reason, settled, hrun, hdescribed⟩
    · obtain ⟨rfl, rfl⟩ := endsWell_stated.mp hb
      rw [deepEquals_object_string] at hequal
      cases hequal
    · have hsaid : EndsWell ((evaluator levels).compare progress
          ((evaluator levels).described statement reason key)
          ((evaluator levels).stated statement)) settled result last :=
        endsWell_compare.mpr ⟨a, middle, b, hdescribed, hb, hequal, hprogress⟩
      exact ⟨reason, settled, hrun, described_equals_stated_iff.mp ⟨result, last, hsaid⟩⟩
  · rintro ⟨reason, settled, hrun, hsaid⟩
    obtain ⟨result, last, hends⟩ := described_equals_stated_iff.mpr hsaid
    obtain ⟨a, middle, b, ha, hb, hequal, hresult⟩ := endsWell_compare.mp hends
    refine ⟨result, last, endsWell_compare.mpr ⟨a, middle, b, ?_, hb, hequal, hresult⟩⟩
    exact endsWell_rejection.mpr (.inr ⟨reason, settled, hrun, ha⟩)

/-- A statement is met where its step ends well. -/
theorem endsWell_step_iff {progress : Progress Value}
    (hwhole : session.Whole) (hresult : session.Holds progress.result)
    (hkind : statement.kind ≠ .input) :
    (∃ result last, EndsWell ((evaluator levels).step progress statement) session result last) ↔
      Meets levels session progress.result statement := by
  obtain ⟨kind, payload⟩ := statement
  cases kind with
  | input => exact absurd rfl hkind
  | output =>
    constructor
    · rintro ⟨result, last, hends⟩
      obtain ⟨a, middle, b, ha, hb, hequal, -⟩ := endsWell_compare.mp hends
      obtain ⟨rfl, rfl⟩ := pure_iff.mp ha
      exact .output (endsWell_expected.mp hb) hequal
    · intro hmeets
      cases hmeets with
      | output hvalue hequal =>
        exact ⟨_, _, endsWell_compare.mpr ⟨_, _, _, pure_iff.mpr ⟨rfl, rfl⟩,
          endsWell_expected.mpr hvalue, hequal, rfl⟩⟩
  | resolve =>
    refine (settled_equals_expected_iff hwhole hresult).trans ⟨?_, ?_⟩
    · rintro ⟨outcome, settled, value, next, hrun, hkey, hvalue, hequal⟩
      cases outcome with
      | ok fulfilled => exact .resolve hrun hvalue hequal
      | error reason => exact absurd hkey (by simp [settledAs])
    · intro hmeets
      cases hmeets with
      | resolve hrun hvalue hequal => exact ⟨.ok _, _, _, _, hrun, rfl, hvalue, hequal⟩
  | reject =>
    refine (settled_equals_expected_iff hwhole hresult).trans ⟨?_, ?_⟩
    · rintro ⟨outcome, settled, value, next, hrun, hkey, hvalue, hequal⟩
      cases outcome with
      | ok fulfilled => exact absurd hkey (by simp [settledAs])
      | error reason => exact .reject hrun hvalue hequal
    · intro hmeets
      cases hmeets with
      | reject hrun hvalue hequal => exact ⟨.error _, _, _, _, hrun, rfl, hvalue, hequal⟩
  | rejectError =>
    refine rejection_equals_stated_iff.trans ⟨?_, ?_⟩
    · exact fun ⟨reason, settled, hrun, hsaid⟩ => .rejectError hrun hsaid
    · intro hmeets
      cases hmeets with
      | rejectError hrun hsaid => exact ⟨_, _, hrun, hsaid⟩
  | rejectErrorCode =>
    refine rejection_equals_stated_iff.trans ⟨?_, ?_⟩
    · exact fun ⟨reason, settled, hrun, hsaid⟩ => .rejectErrorCode hrun hsaid
    · intro hmeets
      cases hmeets with
      | rejectErrorCode hrun hsaid => exact ⟨_, _, hrun, hsaid⟩
  | error =>
    refine described_equals_stated_iff.trans ⟨.error, fun hmeets => ?_⟩
    cases hmeets with
    | error hsaid => exact hsaid
  | errorCode =>
    refine described_equals_stated_iff.trans ⟨.errorCode, fun hmeets => ?_⟩
    cases hmeets with
    | errorCode hsaid => exact hsaid

/-- **An expectation passes if and only if what its line asks for is the case**, in every session
and for every result. So no line about one way to settle passes for a value that settles in the
other way. -/
theorem step_passes_iff (levels : Nat) {progress : Progress Value} (hwhole : session.Whole)
    (hresult : session.Holds progress.result) (hkind : statement.kind ≠ .input) :
    ((∃ result last, ((evaluator levels).step progress statement).run.run session =
        some (.ok result, last)) ↔ Meets levels session progress.result statement) ∧
      ∀ outcome settled result last,
        (Step.settle levels progress.result).run session = some (outcome, settled) →
        ((evaluator levels).step progress statement).run.run session = some (.ok result, last) →
        (statement.kind = .resolve → outcome.isOk = true) ∧
          (statement.kind ∈ [.reject, .rejectError, .rejectErrorCode] → outcome.isOk = false) := by
  have hpasses : (∃ result last,
      EndsWell ((evaluator levels).step progress statement) session result last) ↔
        Meets levels session progress.result statement :=
    endsWell_step_iff hwhole hresult hkind
  refine ⟨hpasses, fun outcome settled result last hsettled hlast => ?_⟩
  cases hpasses.mp ⟨result, last, hlast⟩ with
  | output | error | errorCode => simp
  | resolve hrun => cases hsettled.symm.trans hrun; simp [Except.isOk, Except.toBool]
  | reject hrun | rejectError hrun | rejectErrorCode hrun =>
    cases hsettled.symm.trans hrun
    simp [Except.isOk, Except.toBool]

/-- A promise that is fulfilled with a text meets a line that says so. -/
theorem meets_fulfilled_promise :
    ∃ session,
      (Step.evaluate amplyManyLevels "Promise.resolve('a')").run Session.new =
        some (.ok (.promise ⟨0⟩), session) ∧
      Meets amplyManyLevels session (.promise ⟨0⟩) ⟨.resolve, "'a'"⟩ := by
  have hruns : ((Step.evaluate amplyManyLevels "Promise.resolve('a')" >>= fun outcome =>
      ((evaluator amplyManyLevels).step ⟨"", .promise ⟨0⟩⟩ ⟨.resolve, "'a'"⟩).run >>= fun verdict =>
        return (outcome, verdict.isOk)).run Session.new).map Prod.fst =
      some (.ok (.promise ⟨0⟩), true) := by
    decide +kernel
  obtain ⟨⟨answer, last⟩, hrun, hanswer⟩ := Option.map_eq_some_iff.mp hruns
  obtain ⟨outcome, session, hevaluated, hrun⟩ := Step.run_bind_eq_some_iff.mp hrun
  obtain ⟨verdict, next, hstep, hrun⟩ := Step.run_bind_eq_some_iff.mp hrun
  cases hrun
  obtain ⟨rfl, hok⟩ := Prod.mk.inj hanswer
  cases verdict with
  | error fault => cases hok
  | ok progress =>
    have hkept := Step.evaluate_kept Session.whole_new hevaluated
    have hholds : session.Holds (⟨"", .promise ⟨0⟩⟩ : Progress Value).result := hkept.found
    have hkind : (⟨.resolve, "'a'"⟩ : Statement).kind ≠ .input := by decide
    have hpasses := step_passes_iff amplyManyLevels hkept.closed hholds hkind
    exact ⟨session, hevaluated, hpasses.1.mp ⟨progress, last, hstep⟩⟩

/-! ### What is raised and what is returned -/

theorem endsWell_start {code : String} {progress : Progress Value} :
    EndsWell ((evaluator levels).start code) session progress next ↔
      ∃ answer, (Step.evaluate levels code).run session = some (answer, next) ∧
        ⟨code, captured answer⟩ = progress := by
  unfold EndsWell
  rw [run_start, StateT.run_map, Option.map_eq_map, Option.map_eq_some_iff]
  constructor
  · rintro ⟨⟨answer, last⟩, hanswer, ⟨⟩⟩
    exact ⟨answer, hanswer, rfl⟩
  · rintro ⟨answer, hanswer, rfl⟩
    exact ⟨(answer, next), hanswer, rfl⟩

/-- A block passes if its statements end well. -/
theorem runBlock_pass_iff {block : String} {statements : List Statement}
    (hblock : Block.statements block = .ok statements) :
    ((evaluator levels).runBlock block).run session = some (.pass, next) ↔
      EndsWell ((evaluator levels).runStatements statements) session () next := by
  unfold EndsWell
  rw [runBlock_of_statements _ hblock, StateT.run_map, Option.map_eq_map, Option.map_eq_some_iff]
  constructor
  · rintro ⟨⟨_ | _, last⟩, hrun, hpass⟩
    · cases hpass
    · cases hpass
      exact hrun
  · exact fun hrun => ⟨(.ok (), next), hrun, rfl⟩

/-- **A line about an error tells nothing about how the input ended**: what the input gives and
what it raises pass in the same way, by the property that the line is about. -/
theorem runBlock_described_iff {block code text key : String} {kind : StatementKind}
    (hblock : Block.statements block = .ok [⟨.input, code⟩, ⟨kind, text⟩])
    (hkey : (kind, key) ∈ [(.error, "message"), (.errorCode, "code")]) :
    (∃ last, ((evaluator levels).runBlock block).run session = some (.pass, last)) ↔
      ∃ answer next, (Step.evaluate levels code).run session = some (answer, next) ∧
        Says next (captured answer) key text := by
  have hstep (progress : Progress Value) :
      (evaluator levels).step progress ⟨kind, text⟩ =
        (evaluator levels).compare progress
          ((evaluator levels).described ⟨kind, text⟩ progress.result key)
          ((evaluator levels).stated ⟨kind, text⟩) := by
    simp only [List.mem_cons, Prod.mk.injEq, List.not_mem_nil, or_false] at hkey
    rcases hkey with ⟨rfl, rfl⟩ | ⟨rfl, rfl⟩ <;> rfl
  have hends (progress : Progress Value) (middle last : Session) :
      EndsWell (discard ([⟨kind, text⟩].foldlM (evaluator levels).step progress)) middle () last ↔
        ∃ result, EndsWell ((evaluator levels).compare progress
          ((evaluator levels).described ⟨kind, text⟩ progress.result key)
          ((evaluator levels).stated ⟨kind, text⟩)) middle result last := by
    rw [discard_eq, map_iff, List.foldlM_cons, hstep]
    simp only [List.foldlM_nil, bind_pure]
    exact ⟨fun ⟨result, hresult, _⟩ => ⟨result, hresult⟩, fun ⟨result, h⟩ => ⟨result, h, trivial⟩⟩
  simp only [runBlock_pass_iff hblock]
  constructor
  · rintro ⟨last, hpass⟩
    obtain ⟨progress, middle, hstart, hpass⟩ := bind_iff.mp hpass
    obtain ⟨answer, hanswer, rfl⟩ := endsWell_start.mp hstart
    obtain ⟨result, hresult⟩ := (hends _ _ _).mp hpass
    exact ⟨answer, middle, hanswer, described_equals_stated_iff.mp ⟨result, last, hresult⟩⟩
  · rintro ⟨answer, middle, hanswer, hsaid⟩
    have hpayload : Says middle (captured answer) key (⟨kind, text⟩ : Statement).payload := hsaid
    let progress : Progress Value := ⟨code, captured answer⟩
    obtain ⟨result, last, hresult⟩ : ∃ result last, EndsWell ((evaluator levels).compare progress
        ((evaluator levels).described ⟨kind, text⟩ progress.result key)
        ((evaluator levels).stated ⟨kind, text⟩)) middle result last :=
      described_equals_stated_iff.mpr hpayload
    exact ⟨last, bind_iff.mpr ⟨_, middle, endsWell_start.mpr ⟨answer, hanswer, rfl⟩,
      (hends _ _ _).mpr ⟨result, hresult⟩⟩⟩

/-- An error that is raised says its message. -/
theorem says_of_raised_error :
    ∃ answer next,
      (Step.evaluate amplyManyLevels "throw new Error('no')").run Session.new =
        some (answer, next) ∧
      Says next (captured answer) "message" "no" := by
  have hblock : Block.statements "> throw new Error('no')\nError: no" =
      .ok [⟨.input, "throw new Error('no')"⟩, ⟨.error, "no"⟩] := by
    decide +kernel
  have hpass : (((evaluator amplyManyLevels).runBlock "> throw new Error('no')\nError: no").run
      Session.new).map Prod.fst = some .pass := by
    decide +kernel
  obtain ⟨⟨verdict, last⟩, hrun, rfl⟩ := Option.map_eq_some_iff.mp hpass
  exact (runBlock_described_iff hblock (by decide)).mp ⟨last, hrun⟩

/-- A value that is no error and was not raised meets a line about an error, and so does one with
a code. -/
theorem returned_value_meets_error :
    (((evaluator amplyManyLevels).runBlock "> (\x7b message: 'x' \x7d)\nError: x").run
        Session.new).map Prod.fst = some .pass ∧
      ((Step.evaluate amplyManyLevels "(\x7b message: 'x' \x7d)").run Session.new).map
        (fun found => found.1.isOk) = some true ∧
      (((evaluator amplyManyLevels).runBlock "> (\x7b code: 'x' \x7d)\nError code: x").run
        Session.new).map Prod.fst = some .pass ∧
      ((Step.evaluate amplyManyLevels "(\x7b code: 'x' \x7d)").run Session.new).map
        (fun found => found.1.isOk) = some true := by
  decide +kernel

end Evaluator

end Doctest
