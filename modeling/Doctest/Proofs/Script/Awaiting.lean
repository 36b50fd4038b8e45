import Doctest.Proofs.Check.Calls
import Doctest.Proofs.Script.Pairing.Itself
import Doctest.Script.Evaluator

/-!
# Running a script awaits nothing

The work that promises wait for is neither done nor looked at while a script runs: promises that
have an outcome or wait for work stay as they are, and the script does the same whatever the work
is. A promise that waits for its resolving functions takes the first call of one of them.
-/

namespace Doctest.Script

/-! ### Promises stay as they are -/

/-- All promises but those that wait to be resolved are as they were. -/
def Heap.Leaves (heap last : Heap) : Prop :=
  ∀ ref : Ref .promise, heap.get ref ≠ .pending .unresolved → last.get ref = heap.get ref

namespace Heap.Leaves

variable {heap last : Heap}

theorem refl (heap : Heap) : heap.Leaves heap :=
  fun _ _ => rfl

theorem alloc (h : heap.Leaves last) {kind : CellKind} (cell : Cell kind) :
    heap.Leaves (last.alloc kind cell).2 := by
  intro ref hwaits
  have hkept := h ref hwaits
  rw [Heap.get_alloc_of_place_ne, hkept]
  intro hplace
  injection hplace with hkind hindex
  subst hkind
  -- Behind the last promise nothing but a promise that waits is read.
  have hmissing := last.get_of_le ref (Nat.le_of_eq hindex.symm)
  exact hwaits (hkept.symm.trans hmissing)

theorem change (h : heap.Leaves last) {kind : CellKind} (ref : Ref kind)
    (f : Cell kind → Cell kind) (hkind : kind ≠ .promise) :
    heap.Leaves (last.modify ref f) := by
  intro found hwaits
  rw [Heap.get_modify_of_ne _ _ _ _ hkind.symm, h found hwaits]

theorem resolve (h : heap.Leaves last) {ref : Ref .promise}
    (href : last.get ref = .pending .unresolved) (state : PromiseState) :
    heap.Leaves (last.modify ref fun _ => state) := by
  intro found hwaits
  have hkept := h found hwaits
  have hne : ref ≠ found := by
    rintro rfl
    exact hwaits (hkept.symm.trans href)
  rw [Heap.get_modify, if_neg fun hboth => hne hboth.1, hkept]

end Heap.Leaves

theorem Heap.Leaves.lasting (heap : Heap) : Machine.Lasting fun m => heap.Leaves m.heap where
  alloc h _ cell := h.alloc cell
  change h _ ref f hkind := h.change ref f hkind
  resolve h _ state href := h.resolve href state

/-- The same machine twice, with a heap that still has the promises of another one. -/
def Pairing.leaving (heap : Heap) : Pairing :=
  itself (fun m => heap.Leaves m.heap) False fun _ => True

theorem Pairing.leaving_lawful (heap : Heap) : (leaving heap).Lawful :=
  itself_lawful (Heap.Leaves.lasting heap) fun _ _ => trivial

theorem Pairing.leaving_deeper (heap : Heap) : (leaving heap).Deeper (leaving heap) :=
  itself_deeper (fun h _ => h) id id

/-- A script leaves all promises that do not wait to be resolved. -/
theorem leaves_runSource (levels : Nat) (scope : Scope) (source : String) (start : Machine) :
    start.heap.Leaves (runSource (invoke levels) scope source start).2.heap := by
  have hp := Pairing.leaving_lawful start.heap
  have hcalls := Pairing.invoke_keeps hp (Pairing.leaving_deeper _) (fun _ => trivial) levels
  have hruns := Pairing.runSource hp rfl hcalls scope source
  exact (Pairing.eq_of_itself id hruns (.refl _)).2.1

/-! ### Resolving functions -/

namespace Library

/-- What a promise becomes waits no more to be resolved. -/
theorem resolvedState_ok (ref : Ref .promise) (outcome : Outcome) (start : Machine) :
    ∃ state last, resolvedState ref outcome start = (.ok state, last) ∧
      state ≠ .pending .unresolved ∧
      last.heap.count .promise = start.heap.count .promise := by
  unfold resolvedState
  split
  · split
    · refine ⟨_, ⟨(start.heap.alloc .error _).2, start.depth⟩, rfl, nofun, ?_⟩
      rw [Heap.count_alloc, if_neg (by decide), Nat.add_zero]
    · exact ⟨_, start, rfl, nofun, rfl⟩
  · cases outcome with
    | ok value => exact ⟨_, start, rfl, nofun, rfl⟩
    | error reason => exact ⟨_, start, rfl, nofun, rfl⟩

/-- A promise that was resolved waits no more to be resolved. -/
theorem get_resolve_ne {ref : Ref .promise} {start : Machine}
    (href : ref.index < start.heap.count .promise) (outcome : Outcome) :
    (resolve ref outcome start).2.heap.get ref ≠ .pending .unresolved := by
  by_cases hwaits : start.heap.get ref = .pending .unresolved
  · obtain ⟨state, last, hstate, hne, hcount⟩ := resolvedState_ok ref outcome start
    have hlast : (resolve ref outcome start).2.heap = last.heap.modify ref fun _ => state := by
      rw [resolve_of_eq hwaits, Eval.bind_apply, hstate]
      rfl
    rw [hlast, Heap.get_modify, if_pos ⟨rfl, hcount ▸ href⟩]
    exact hne
  · rw [resolve_of_ne hwaits]
    exact hwaits

/-- Calling a resolving function. -/
theorem call_resolver (invoke : Invoke) (ref : Ref .promise) (rejects : Bool) (args : List Value)
    (start : Machine) : ∃ outcome,
      call invoke (.resolver ref rejects) args start =
        (.ok .undefined, (resolve ref outcome start).2) := by
  refine ⟨if rejects then .error (args.getD 0 .undefined) else .ok (args.getD 0 .undefined), ?_⟩
  change (resolve ref _ >>= fun _ => pure .undefined : Eval Value) start = _
  rw [Eval.bind_apply]
  generalize (if rejects then _ else _ : Outcome) = outcome
  by_cases hwaits : start.heap.get ref = .pending .unresolved
  · obtain ⟨state, last, hstate, -, -⟩ := resolvedState_ok ref outcome start
    rw [resolve_of_eq hwaits, Eval.bind_apply, hstate]
    rfl
  · rw [resolve_of_ne hwaits]
    rfl

end Library

/-- What may happen to a machine: a resolving function of some promise is called, or a script
runs. -/
inductive Deed where
  | resolving (rejects : Bool) (args : List Value)
  | running (scope : Scope) (source : String)

namespace Deed

/-- Whether a script runs. -/
def isRunning : Deed → Bool
  | resolving _ _ => false
  | running _ _ => true

/-- The machine after a deed. -/
def perform (levels : Nat) (ref : Ref .promise) (start : Machine) : Deed → Machine
  | resolving rejects args =>
    (Library.call (invoke levels) (.resolver ref rejects) args start).2
  | running scope source => (runSource (invoke levels) scope source start).2

variable {levels : Nat} {ref : Ref .promise} {start : Machine}

/-- After a call of one of its resolving functions a promise waits no more for them. -/
theorem get_resolving_ne (href : ref.index < start.heap.count .promise) (rejects : Bool)
    (args : List Value) :
    (perform levels ref start (resolving rejects args)).heap.get ref ≠ .pending .unresolved := by
  obtain ⟨outcome, hcall⟩ :=
    Library.call_resolver (invoke levels) ref rejects args start
  rw [perform, hcall]
  exact Library.get_resolve_ne href outcome

/-- A call of a resolving function does nothing if its promise does not wait for it. -/
theorem perform_resolving_of_ne (h : start.heap.get ref ≠ .pending .unresolved) (rejects : Bool)
    (args : List Value) : perform levels ref start (resolving rejects args) = start := by
  obtain ⟨outcome, hcall⟩ :=
    Library.call_resolver (invoke levels) ref rejects args start
  rw [perform, hcall, Library.resolve_of_ne h]

/-- Once a promise waits no more for its resolving functions, their calls can be left out. -/
theorem performs_of_ne (deeds : List Deed) (h : start.heap.get ref ≠ .pending .unresolved) :
    deeds.foldl (perform levels ref) start =
      (deeds.filter isRunning).foldl (perform levels ref) start := by
  induction deeds generalizing start with
  | nil => rfl
  | cons deed deeds ih =>
    cases deed with
    | resolving rejects args =>
      rw [List.foldl_cons, perform_resolving_of_ne h, List.filter_cons_of_neg Bool.false_ne_true]
      exact ih h
    | running scope source =>
      have hkept := leaves_runSource levels scope source start ref h
      rw [List.filter_cons_of_pos rfl, List.foldl_cons, List.foldl_cons]
      exact ih fun hwaits => h (hkept.symm.trans hwaits)

end Deed

/-! ### Work is not looked at -/

/-- Two machines that differ in nothing but the work for which pending promises wait. -/
structure Machine.WorkApart (m n : Machine) : Prop where
  depth : m.depth = n.depth
  beside : m.heap.Beside n.heap
  promise : ∀ ref : Ref .promise, m.heap.get ref = n.heap.get ref ∨
    ∃ work work', m.heap.get ref = .pending work ∧ n.heap.get ref = .pending work' ∧
      work ≠ .unresolved ∧ work' ≠ .unresolved

namespace Machine.WorkApart

variable {m n : Machine}

theorem waits (h : m.WorkApart n) (ref : Ref .promise) :
    m.heap.get ref = .pending .unresolved ↔ n.heap.get ref = .pending .unresolved := by
  rcases h.promise ref with heq | ⟨work, work', hm, hn, hwork, hwork'⟩
  · rw [heq]
  · rw [hm, hn]
    exact ⟨fun h => by cases h; contradiction, fun h => by cases h; contradiction⟩

/-- The work of a pending promise is not shown. -/
theorem inspect (h : m.WorkApart n) (value : Value) :
    m.heap.inspect value = n.heap.inspect value := by
  refine h.beside.resembles.inspect (fun ref => ?_) value
  rcases h.promise ref with heq | ⟨work, work', hm, hn, -, -⟩
  · exact .inl heq
  · exact .inr ⟨work, work', hm, hn⟩

end Machine.WorkApart

/-- Machines that differ in nothing but the work for which pending promises wait. -/
def Pairing.workApart : Pairing where
  same := Machine.WorkApart
  cuts := False
  stuck _ := True

theorem Pairing.workApart_lawful : workApart.Lawful where
  resembles h := h.beside.resembles
  waits h := h.waits
  inspect h := h.inspect
  alloc h _ cell := by
    change Machine.WorkApart _ ⟨(Heap.alloc _ _ (Cell.mapSpans id cell)).2, _⟩
    rw [Cell.mapSpans_id]
    refine ⟨h.depth, h.beside.alloc cell, fun ref => ?_⟩
    rcases h.beside.get_alloc cell ref with heq | ⟨hm, hn⟩
    · exact .inl heq
    · rw [hm, hn]
      exact h.promise ref
  change h _ ref f hkind := by
    refine ⟨h.depth, h.beside.modify ref f, fun found => ?_⟩
    rw [Heap.get_modify_of_ne _ _ _ _ hkind.1.symm, Heap.get_modify_of_ne _ _ _ _ hkind.1.symm]
    exact h.promise found
  resolve h ref state _ := by
    refine ⟨h.depth, h.beside.modify ref _, fun found => ?_⟩
    rw [Heap.get_modify, Heap.get_modify, h.beside.count]
    split
    · exact .inl rfl
    · exact h.promise found
  endless _ _ := trivial

theorem Pairing.workApart_deeper : workApart.Deeper workApart where
  depth h := h.depth
  into h _ := ⟨congrArg (· + 1) h.depth, h.beside, h.promise⟩
  back h := ⟨congrArg (· - 1) h.depth, h.beside, h.promise⟩
  cuts := id
  stuck := id
  returns := id
  spans := rfl

/-- A script gives the same whatever work pending promises wait for. -/
theorem runSource_workApart {m n : Machine} (h : m.WorkApart n) (levels : Nat) (scope : Scope)
    (source : String) :
    (runSource (invoke levels) scope source m).1 = (runSource (invoke levels) scope source n).1 ∧
      (runSource (invoke levels) scope source m).2.WorkApart
        (runSource (invoke levels) scope source n).2 := by
  have hp := Pairing.workApart_lawful
  have hcalls := Pairing.invoke_keeps hp Pairing.workApart_deeper (fun _ => trivial) levels
  rcases Pairing.runSource hp rfl hcalls scope source m n h with ⟨hcuts, -⟩ | ⟨hfound, hsame, -⟩
  · exact hcuts.elim
  · exact ⟨hfound, hsame⟩

/-! ### Inputs and plain outputs -/

/-- An action that leaves the session as it is. -/
def Stays {α : Type} (action : ExceptT BlockFault Step α) : Prop :=
  ∀ session result next, action.run.run session = some (result, next) → next = session

namespace Stays

variable {α β : Type} {session next : Session}

theorem pure (a : α) : Stays (Pure.pure a) := by
  rintro session result next ⟨⟩
  rfl

theorem throw (fault : BlockFault) :
    Stays (MonadExcept.throw fault : ExceptT BlockFault Step α) := by
  rintro session result next ⟨⟩
  rfl

/-- What is told about the heap. -/
theorem ofHeap? (f : Heap → Option α) : Stays (liftM (Step.ofHeap? f)) := by
  intro session result next h
  rw [Notes.run_lift] at h
  obtain ⟨found, hfound, ⟨⟩⟩ := Option.map_eq_some_iff.mp h
  obtain ⟨a, -, rfl⟩ := Option.map_eq_some_iff.mp hfound
  rfl

theorem deepEquals (levels : Nat) (a b : Value) :
    Stays (liftM ((evaluator levels).deepEquals a b)) :=
  ofHeap? fun heap => some (heap.deepEquals a b)

theorem inspect (levels : Nat) (value : Value) : Stays (liftM ((evaluator levels).inspect value)) :=
  ofHeap? fun heap => some (heap.inspect value)

theorem errorMessage (levels : Nat) (raised : Value) :
    Stays (liftM ((evaluator levels).errorMessage raised)) :=
  ofHeap? fun heap => some (heap.errorMessage raised)

/-- An action before one that leaves the session as it is. -/
theorem exists_before {x : ExceptT BlockFault Step α} {f : α → ExceptT BlockFault Step β}
    (hf : ∀ a, Stays (f a)) {result : Except BlockFault β}
    (h : (x >>= f).run.run session = some (result, next)) :
    ∃ found, x.run.run session = some (found, next) := by
  rw [ExceptT.run_bind, StateT.run_bind] at h
  obtain ⟨⟨found, middle⟩, hx, hrest⟩ := Option.bind_eq_some_iff.mp h
  cases found with
  | ok a =>
    obtain rfl := hf a middle result next hrest
    exact ⟨.ok a, hx⟩
  | error fault =>
    obtain ⟨⟩ := hrest
    exact ⟨.error fault, hx⟩

theorem bind {x : ExceptT BlockFault Step α} {f : α → ExceptT BlockFault Step β} (hx : Stays x)
    (hf : ∀ a, Stays (f a)) : Stays (x >>= f) := by
  intro session result next h
  obtain ⟨found, hfound⟩ := exists_before hf h
  exact hx session found next hfound

end Stays

namespace Step

variable {levels : Nat} {progress : Progress Value} {session next : Session} {code : String}

/-- An evaluation before what leaves the session as it is. -/
theorem exists_evaluate {α : Type} {f : Outcome → ExceptT BlockFault Step α}
    (hf : ∀ outcome, Stays (f outcome)) {result : Except BlockFault α}
    (h : (liftM (evaluate levels code) >>= f).run.run session = some (result, next)) :
    ∃ outcome, (evaluate levels code).run session = some (outcome, next) := by
  obtain ⟨found, hfound⟩ := Stays.exists_before hf h
  rw [Notes.run_lift] at hfound
  obtain ⟨⟨outcome, last⟩, houtcome, ⟨⟩⟩ := Option.map_eq_some_iff.mp hfound
  exact ⟨outcome, houtcome⟩

/-- An input does nothing but run its code. -/
theorem exists_evaluate_of_input {result : Except BlockFault (Progress Value)}
    (h : ((evaluator levels).step progress ⟨.input, code⟩).run.run session =
      some (result, next)) :
    ∃ outcome, (evaluate levels code).run session = some (outcome, next) := by
  refine exists_evaluate (fun outcome => ?_) h
  cases outcome <;> exact .pure _

/-- A plain output does nothing but run its code and compare. -/
theorem exists_evaluate_of_output {result : Except BlockFault (Progress Value)}
    (h : ((evaluator levels).step progress ⟨.output, code⟩).run.run session =
      some (result, next)) :
    ∃ outcome, (evaluate levels code).run session = some (outcome, next) := by
  have hcompared (expected : Value) : Stays (do
      if ← (evaluator levels).deepEquals progress.result expected then
        return { progress with result := progress.result }
      else
        throw (.mismatch progress.input (← (evaluator levels).inspect expected)
          (← (evaluator levels).inspect progress.result)) :
        ExceptT BlockFault Step (Progress Value)) := by
    refine .bind (.deepEquals _ _ _) fun equal => ?_
    split
    · exact .pure _
    · exact .bind (.inspect _ _) fun _ => .bind (.inspect _ _) fun _ => .throw _
  obtain ⟨found, hfound⟩ := Stays.exists_before
    (x := (evaluator levels).expected ⟨.output, code⟩) hcompared h
  refine exists_evaluate (fun outcome => ?_) hfound
  cases outcome with
  | ok value => exact .pure _
  | error raised => exact .bind (.errorMessage _ _) fun _ => .throw _

end Step

/-- **Running a script awaits nothing.** Whatever the script and the machine, all promises that
have an outcome or wait for work stay as they are; of the calls of the resolving functions of a
promise, whatever scripts run in between, only the first one does anything; and the script does the
same whatever the work is that promises wait for, so that no handler is called in order to settle
one. Inputs and plain outputs of a block do nothing but run their code. -/
theorem running_awaits_nothing (levels : Nat) :
    (∀ scope source (start : Machine),
      start.heap.Leaves (runSource (invoke levels) scope source start).2.heap) ∧
    (∀ (ref : Ref .promise) (start : Machine) rejects args later,
      ref.index < start.heap.count .promise →
      (Deed.resolving rejects args :: later).foldl (Deed.perform levels ref) start =
        (Deed.resolving rejects args :: later.filter Deed.isRunning).foldl
          (Deed.perform levels ref) start) ∧
    (∀ scope source (start other : Machine), start.WorkApart other →
      (runSource (invoke levels) scope source start).1 =
          (runSource (invoke levels) scope source other).1 ∧
        (runSource (invoke levels) scope source start).2.WorkApart
          (runSource (invoke levels) scope source other).2) ∧
    ∀ kind ∈ [StatementKind.input, .output], ∀ code progress session result next,
      ((evaluator levels).step progress ⟨kind, code⟩).run.run session = some (result, next) →
      ∃ outcome, (Step.evaluate levels code).run session = some (outcome, next) := by
  refine ⟨leaves_runSource levels, ?_, ?_, ?_⟩
  · intro ref start rejects args later href
    exact Deed.performs_of_ne later (Deed.get_resolving_ne href rejects args)
  · intro scope source start other h
    exact runSource_workApart h levels scope source
  · intro kind hkind code progress session result next h
    rcases List.mem_cons.mp hkind with rfl | hkind
    · exact Step.exists_evaluate_of_input h
    · obtain rfl := List.mem_singleton.mp hkind
      exact Step.exists_evaluate_of_output h

/-- A promise that waits for another one stays as it is, whatever script runs, and the script would
do the same if that work were being done. Another promise waits for its resolving functions, of
whose calls only the first one does anything. -/
theorem running_awaits_nothing_of_handler :
    ∃ session, ((Step.evaluate amplyManyLevels
        "let p = Promise.resolve('a').then(x => x); new Promise(() => 0)").run
          Session.new).map Prod.snd = some session ∧
      ∀ levels source,
        (runSource (invoke levels) session.scope source session.machine).2.heap.get
            (⟨1⟩ : Ref .promise) = session.heap.get ⟨1⟩ ∧
        (runSource (invoke levels) session.scope source session.machine).1 =
          (runSource (invoke levels) session.scope source
            ⟨session.heap.modify (⟨1⟩ : Ref .promise) fun _ => .pending .running,
              session.machine.depth⟩).1 ∧
        ∀ later, (Deed.resolving false [.string "a"] :: later).foldl
            (Deed.perform levels ⟨2⟩) session.machine =
          (Deed.resolving false [.string "a"] :: later.filter Deed.isRunning).foldl
            (Deed.perform levels ⟨2⟩) session.machine := by
  have hstates : ((Step.evaluate amplyManyLevels
      "let p = Promise.resolve('a').then(x => x); new Promise(() => 0)").run Session.new).map
        (fun found => (found.2.heap.count .promise, found.2.heap.get (⟨1⟩ : Ref .promise))) =
      some (3, .pending (.andThen ⟨0⟩ (some (.callable ⟨24⟩)) none)) := by
    decide +kernel
  obtain ⟨⟨answer, session⟩, hrun, hsession⟩ := Option.map_eq_some_iff.mp hstates
  simp only [Prod.mk.injEq] at hsession
  obtain ⟨hcount, hwaits⟩ := hsession
  refine ⟨session, by rw [hrun]; rfl, fun levels source => ?_⟩
  obtain ⟨hleaves, hresolves, happart, -⟩ := running_awaits_nothing levels
  have hthere : 2 < session.heap.count .promise := by
    rw [hcount]
    decide
  have hother : session.machine.WorkApart
      ⟨session.heap.modify (⟨1⟩ : Ref .promise) fun _ => .pending .running,
        session.machine.depth⟩ := by
    refine ⟨rfl, ⟨fun ref hkind => ?_, fun kind => (Heap.count_modify _ _ _).symm⟩, fun ref => ?_⟩
    · exact (Heap.get_modify_of_ne _ _ _ _ hkind).symm
    · by_cases hsame : ref = ⟨1⟩
      · subst hsame
        refine .inr ⟨_, .running, hwaits, ?_, fun heq => (by cases heq), fun heq => (by cases heq)⟩
        exact (Heap.get_modify _ _ _ _).trans (if_pos ⟨rfl, Nat.lt_of_succ_lt hthere⟩)
      · refine .inl ((Heap.get_modify _ _ _ _).trans (if_neg ?_)).symm
        exact fun hboth => hsame hboth.1.symm
  refine ⟨hleaves _ source _ ⟨1⟩ ?_, (happart _ source _ _ hother).1, fun later => ?_⟩
  · change session.heap.get ⟨1⟩ ≠ _
    rw [hwaits]
    exact fun heq => by cases heq
  · exact hresolves ⟨2⟩ session.machine false [.string "a"] later hthere

end Doctest.Script
