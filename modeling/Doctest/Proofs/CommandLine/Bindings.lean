import Doctest.CommandLine.Run
import Doctest.Proofs.Number.Digits
import Doctest.Proofs.Script.Keeping.Sessions
import Doctest.Proofs.Script.NestedScopes
import Mathlib.Data.List.Forall2
import Mathlib.Data.List.TakeWhile

/-!
# Bindings that are installed

An input asks for a binding exactly if there is an equals sign in it. The bindings are installed in
the order of the inputs, each with the value of its file: JSON, or what a script gives that is run
by itself. Loading a value leaves all names as they are, so the last binding of a name is the one
that counts.
-/

namespace Doctest

namespace CommandLine

open Script (Session Step Value)

/-! ### What inputs ask for -/

/-- Whether an input asks for a binding, and does not name the document. -/
def isBinding (input : String) : Bool :=
  input.toList.contains '='

/-- An input that asks for a binding: a name that may be bound, an equals sign and a path. -/
structure Binding.IsAskedBy (binding : Binding) (input : String) : Prop where
  input_eq : input = binding.name ++ "=" ++ binding.path
  name : isBindable binding.name.toList = true
  path : binding.path ≠ ""

theorem ne_equals_of_isBindable {name : List Char} (h : isBindable name = true) :
    ∀ c ∈ name, decide (c ≠ '=') = true := by
  have hequals : Text.isAlphabetic '=' = false ∧ Text.isAlphanumeric '=' = false := by
    decide +kernel
  cases name with
  | nil => cases h
  | cons first rest =>
    simp only [isBindable, Bool.and_eq_true, List.all_eq_true] at h
    simp only [decide_eq_true_eq]
    rintro c hmem rfl
    rcases List.mem_cons.mp hmem with hfirst | hrest
    · rw [← hfirst] at h
      simp [hequals.1] at h
    · have hother := h.2 _ hrest
      simp [hequals.2] at hother

namespace Binding

variable {input : String} {binding : Binding}

/-- An input that asks for a binding has a first equals sign. -/
theorem exists_name_of_isBinding (h : isBinding input = true) :
    ∃ name path, input.toList = name ++ '=' :: path ∧ ∀ c ∈ name, decide (c ≠ '=') = true := by
  obtain ⟨name, path, hinput, hname⟩ := List.eq_append_cons_of_mem (List.contains_iff_mem.mp h)
  exact ⟨name, path, hinput, fun c hmem => decide_eq_true fun hequals => hname (hequals ▸ hmem)⟩

/-- What comes before the first equals sign is a name, and what comes after it is a path. -/
theorem ofInput?_of_name {name path : List Char} (hinput : input.toList = name ++ '=' :: path)
    (hname : ∀ c ∈ name, decide (c ≠ '=') = true) :
    ofInput? input = some (
      if !isBindable name then .error (.badName (String.ofList name))
      else if path.isEmpty then .error (.noPath (String.ofList name))
      else .ok ⟨String.ofList name, String.ofList path⟩) := by
  have hfront : input.toList.takeWhile (· ≠ '=') = name := by
    rw [hinput]
    exact Number.takeWhile_until hname (by simp)
  unfold ofInput?
  dsimp only
  rw [hfront, hinput, List.drop_left]

/-- There is a binding in an input exactly if there is an equals sign in it. -/
theorem ofInput?_eq_none_iff : ofInput? input = none ↔ isBinding input = false := by
  cases hbinding : isBinding input with
  | true =>
    obtain ⟨name, path, hinput, hname⟩ := exists_name_of_isBinding hbinding
    rw [ofInput?_of_name hinput hname]
    exact ⟨nofun, nofun⟩
  | false =>
    have hne : ∀ c ∈ input.toList, decide (c ≠ '=') = true := fun c hmem =>
      decide_eq_true fun hequals =>
        Bool.eq_false_iff.mp hbinding (List.contains_iff_mem.mpr (hequals ▸ hmem))
    have hfront : input.toList.takeWhile (· ≠ '=') = input.toList :=
      List.takeWhile_eq_self_iff.mpr hne
    refine ⟨fun _ => rfl, fun _ => ?_⟩
    unfold ofInput?
    dsimp only
    rw [hfront, List.drop_length]

theorem isBinding_of_ofInput? {found : Except CommandFault Binding}
    (h : ofInput? input = some found) : isBinding input = true := by
  refine Bool.of_not_eq_false fun hnone => ?_
  rw [ofInput?_eq_none_iff.mpr hnone] at h
  cases h

theorem ofInput?_eq_ok_iff : ofInput? input = some (.ok binding) ↔ binding.IsAskedBy input := by
  constructor
  · intro h
    obtain ⟨name, path, hinput, hname⟩ := exists_name_of_isBinding (isBinding_of_ofInput? h)
    rw [ofInput?_of_name hinput hname, Option.some_inj] at h
    split at h
    case isTrue => cases h
    case isFalse hbindable =>
      split at h
      case isTrue => cases h
      case isFalse hpath =>
        obtain rfl := Except.ok.inj h
        refine ⟨?_, by simpa using hbindable, fun hempty => hpath ?_⟩
        · rw [← String.toList_inj, hinput]
          simp
        · simpa using congrArg String.toList hempty
  · rintro ⟨hinput, hname, hpath⟩
    have hlist : input.toList = binding.name.toList ++ '=' :: binding.path.toList := by
      rw [hinput]
      simp
    rw [ofInput?_of_name hlist (ne_equals_of_isBindable hname)]
    simp [hname, hpath]

end Binding

/-- The inputs that ask for bindings are taken in their order, and of the others the last. -/
theorem splitInputs_eq_ok_iff {inputs : List String} {bindings : List Binding}
    {path? : Option String} :
    splitInputs inputs = .ok (bindings, path?) ↔
      List.Forall₂ (fun input binding => binding.IsAskedBy input) (inputs.filter isBinding)
          bindings ∧
        (inputs.filter (!isBinding ·)).getLast? = path? := by
  induction inputs generalizing bindings path? with
  | nil =>
    rw [splitInputs]
    constructor
    · rintro ⟨⟩
      exact ⟨.nil, rfl⟩
    · rintro ⟨hasked, rfl⟩
      cases hasked
      rfl
  | cons input rest ih =>
    rw [splitInputs]
    rcases hinput : Binding.ofInput? input with _ | fault | binding
    case none =>
      have hplain := Binding.ofInput?_eq_none_iff.mp hinput
      rw [List.filter_cons_of_neg (by simp [hplain]), List.filter_cons_of_pos (by simp [hplain]),
        List.getLast?_cons]
      constructor
      · intro h
        rcases hsplit : splitInputs rest with fault | ⟨others, last?⟩ <;> rw [hsplit] at h
        case error => cases h
        case ok =>
          obtain ⟨hasked, hlast⟩ := ih.mp hsplit
          cases h
          refine ⟨hasked, ?_⟩
          rw [hlast, Option.or_some]
      · rintro ⟨hasked, rfl⟩
        rw [ih.mpr ⟨hasked, rfl⟩]
        exact congrArg (fun path? => Except.ok (bindings, path?)) (Option.or_some ..)
    case some.error =>
      rw [List.filter_cons_of_pos (Binding.isBinding_of_ofInput? hinput)]
      refine ⟨nofun, ?_⟩
      rintro ⟨hasked, -⟩
      cases hasked with
      | cons hfirst =>
        rw [Binding.ofInput?_eq_ok_iff.mpr hfirst] at hinput
        cases hinput
    case some.ok =>
      have hbinding := Binding.isBinding_of_ofInput? hinput
      rw [List.filter_cons_of_pos hbinding, List.filter_cons_of_neg (by simp [hbinding])]
      constructor
      · intro h
        rcases hsplit : splitInputs rest with fault | ⟨others, last?⟩ <;> rw [hsplit] at h
        case error => cases h
        case ok =>
          obtain ⟨hasked, hlast⟩ := ih.mp hsplit
          cases h
          exact ⟨.cons (Binding.ofInput?_eq_ok_iff.mp hinput) hasked, hlast⟩
      · rintro ⟨hasked, rfl⟩
        cases hasked with
        | cons hfirst hothers =>
          rw [Binding.ofInput?_eq_ok_iff.mpr hfirst] at hinput
          cases hinput
          rw [ih.mpr ⟨hothers, rfl⟩]
          rfl

end CommandLine

/-! ### Names in sessions -/

namespace Script

variable {session next : Session} {name : String} {value : Value} {outcome : Outcome}

/-- A session after a name of its scope was bound to a value. -/
def Session.bound (session : Session) (name : String) (value : Value) : Session :=
  ⟨⟨session.heap.modify session.scope.innermost (·.insert name ⟨value, true⟩),
    session.machine.depth⟩, session.scope⟩

/-- A name that is bound has its value then, and every other name has the value it had. -/
theorem Session.get?_bound (hwhole : session.Whole) (name : String) (value : Value)
    (other : String) :
    (session.bound name value).get? other =
      if other = name then some value else session.get? other := by
  have hthere : session.scope.innermost.index < session.heap.count .frame :=
    hwhole.scope.innermost.1
  by_cases hname : other = name
  · obtain ⟨rest, hchain⟩ := session.scope.chain_eq_cons
    have hframe : ((session.bound name value).heap.get session.scope.innermost).get? name =
        some ⟨value, true⟩ := by
      rw [bound, heap, Heap.get_modify, if_pos ⟨rfl, hthere⟩]
      exact Dict.get?_insert _ _ _
    rw [if_pos hname, hname, get?, Scope.get?, Scope.binder?]
    change Option.map _ (Heap.binder? _ name session.scope.chain) = _
    rw [hchain, Heap.binder?, hframe]
    rfl
  · rw [if_neg hname]
    refine congrArg (Option.map fun found => found.2.value) (Heap.binder?_congr fun frame _ => ?_)
    rw [bound, heap, Heap.get_modify]
    split
    · exact Dict.get?_insert_of_ne _ _ (Ne.symm hname)
    · rfl

theorem Session.Closed.bound (hwhole : session.Whole) (name : String)
    (hvalue : session.Holds value) : (session.bound name value).Whole := by
  have hruns : Eval.Runs (fun _ => False) False session.heap
      (session.scope.define name value true) :=
    Scope.define_runs hwhole.scope name hvalue true
  have hkept := hruns session.machine (.refl _) hwhole.heap
  exact ⟨hkept.closed, hwhole.scope.later hkept.grows⟩

/-- What is run by itself leaves the names of a session as they are. -/
theorem Step.ofEval_alone {eval : Eval Value}
    (heval : ∀ (apart : Place → Prop) (base : Heap), Eval.GivesValue apart False base eval)
    (hwhole : session.Whole) (hrun : (ofEval fun _ => eval).run session = some (outcome, next)) :
    next.Whole ∧ (∀ name, next.get? name = session.get? name) ∧
      Library.Outcome.Of (fun _ => False) next.heap outcome := by
  have hkept := ofEval_kept hwhole (heval _ _) hrun
  -- Evaluating leaves the cells that it does not know of, and here those are all that there were.
  have hold : session.heap.Closed fun place => place.index < session.heap.count place.kind := by
    refine ⟨fun {kind} ref href => ?_, fun _ h => h⟩
    rw [session.heap.get_of_le ref (Nat.le_of_not_lt href)]
    exact Cell.within_missing _ kind
  have hsame := @(heval _ _ session.machine (.refl _) hold).same
  obtain ⟨rfl, -⟩ := ofEval_run hrun
  refine ⟨hkept.closed, fun name => ?_, hkept.found⟩
  refine congrArg (Option.map fun found => found.2.value)
    (Heap.binder?_congr fun frame hmem => ?_)
  exact congrArg (Dict.get? · name) (hsame frame (hwhole.scope frame hmem).1)

end Script

namespace CommandLine

open Script (Session Step Value)

/-- A file loads a value in a session: its text is JSON for the value, or a script that gives the
value when it is run by itself. -/
inductive Binding.Loads (levels : Nat) (binding : Binding) (text : String) (session : Session) :
    Value → Session → Prop
  | json {json : Json} {value : Value} {next : Session}
    (hpath : extension? binding.path = some "json") (hread : Json.read? text = some json)
    (hrun : (Step.ofEval fun _ => Script.ofJson json).run session = some (.ok value, next)) :
    Loads levels binding text session value next
  | script {program : List Script.Stmt} {value : Value} {next : Session}
    (hpath : extension? binding.path ≠ some "json") (hparse : Script.parse text = .ok program)
    (hrun : (Binding.runAlone levels program).run session = some (.ok value, next)) :
    Loads levels binding text session value next

/-- Bindings with their values that are installed one after the other, each from its file. -/
inductive Installs (levels : Nat) (files : Files) :
    Session → List (Binding × Value) → Session → Prop
  | nil (session : Session) : Installs levels files session [] session
  | cons {session loaded last : Session} {binding : Binding} {value : Value} {text : String}
    {rest : List (Binding × Value)} (hread : files.read binding.path = .ok text)
    (hloads : binding.Loads levels text session value loaded)
    (hrest : Installs levels files (loaded.bound binding.name value) rest last) :
    Installs levels files session ((binding, value) :: rest) last

namespace Binding

variable {levels : Nat} {binding : Binding} {text : String} {session next : Session} {value : Value}

/-- A binding has a value exactly if its file loads one. -/
theorem value_run_iff :
    (binding.value levels text).run session = some (.ok value, next) ↔
      binding.Loads levels text session value next := by
  unfold Binding.value
  dsimp only
  split
  case isTrue hpath =>
    constructor
    · intro h
      cases hread : Json.read? text with
      | none =>
        rw [hread] at h
        cases h
      | some json =>
        rw [hread] at h
        obtain ⟨outcome, middle, hrun, hfound⟩ := Step.run_bind_eq_some_iff.mp h
        cases outcome with
        | error reason => cases hfound
        | ok found =>
          cases hfound
          exact .json hpath hread hrun
    · rintro (⟨-, hread, hrun⟩ | ⟨hother, -, -⟩)
      · rw [hread]
        exact Step.run_bind_eq_some_iff.mpr ⟨_, _, hrun, rfl⟩
      · exact absurd hpath hother
  case isFalse hpath =>
    constructor
    · intro h
      cases hparse : Script.parse text with
      | error fault =>
        rw [hparse] at h
        cases h
      | ok program =>
        rw [hparse] at h
        obtain ⟨outcome, middle, hrun, hfound⟩ := Step.run_bind_eq_some_iff.mp h
        cases outcome with
        | error reason => cases hfound
        | ok found =>
          cases hfound
          exact .script hpath hparse hrun
    · rintro (⟨hother, -, -⟩ | ⟨-, hparse, hrun⟩)
      · exact absurd hother hpath
      · rw [hparse]
        exact Step.run_bind_eq_some_iff.mpr ⟨_, _, hrun, rfl⟩

/-- A binding is installed exactly if its file loads a value, and its name has that value then. -/
theorem install_run_iff :
    (binding.install levels text).run session = some (.ok (), next) ↔
      ∃ value loaded, binding.Loads levels text session value loaded ∧
        loaded.bound binding.name value = next := by
  unfold install
  rw [Step.run_bind_eq_some_iff]
  constructor
  · rintro ⟨found, loaded, hvalue, hfound⟩
    cases found with
    | error fault => cases hfound
    | ok value =>
      cases hfound
      exact ⟨value, loaded, value_run_iff.mp hvalue, rfl⟩
  · rintro ⟨value, loaded, hloads, rfl⟩
    exact ⟨.ok value, loaded, value_run_iff.mpr hloads, rfl⟩

/-- Loading a value leaves the names of a session as they are. -/
theorem Loads.kept (h : binding.Loads levels text session value next) (hwhole : session.Whole) :
    next.Whole ∧ (∀ name, next.get? name = session.get? name) ∧ next.Holds value := by
  cases h with
  | json _ _ hrun => exact Step.ofEval_alone (fun _ _ => Script.ofJson_gives _ _) hwhole hrun
  | script _ _ hrun =>
    refine Step.ofEval_alone (fun apart base => ?_) hwhole hrun
    exact .bind Script.Library.newScope_gives fun heap scope _ hscope =>
      Script.runProgram_gives (Script.invoke_keeps levels) hscope _

end Binding

/-- Bindings are installed if the first one is, and then the others. -/
theorem exists_installs_cons_iff {levels : Nat} {files : Files} {session last : Session}
    {binding : Binding} {rest : List Binding} :
    (∃ bound, bound.map Prod.fst = binding :: rest ∧ Installs levels files session bound last) ↔
      ∃ text next, files.read binding.path = .ok text ∧
        (binding.install levels text).run session = some (.ok (), next) ∧
        ∃ bound, bound.map Prod.fst = rest ∧ Installs levels files next bound last := by
  constructor
  · rintro ⟨bound, hbound, hinstalls⟩
    cases hinstalls with
    | nil => cases hbound
    | cons hread hloads hrest =>
      cases hbound
      exact ⟨_, _, hread, Binding.install_run_iff.mpr ⟨_, _, hloads, rfl⟩, _, rfl, hrest⟩
  · rintro ⟨text, next, hread, hinstall, bound, rfl, hrest⟩
    obtain ⟨value, loaded, hloads, rfl⟩ := Binding.install_run_iff.mp hinstall
    exact ⟨(binding, value) :: bound, rfl, .cons hread hloads hrest⟩

/-- Of the bindings of a name the last one counts, and names without bindings are as before. -/
theorem Installs.get?_eq {levels : Nat} {files : Files} {session last : Session}
    {bound : List (Binding × Value)} (h : Installs levels files session bound last)
    (hwhole : session.Whole) (name : String) :
    last.get? name =
      ((bound.filter (·.1.name = name)).getLast?.map Prod.snd).or (session.get? name) := by
  induction h with
  | nil session => rfl
  | @cons session loaded last binding value text rest hread hloads hrest ih =>
    obtain ⟨hloaded, hnames, hvalue⟩ := hloads.kept hwhole
    rw [ih (hloaded.bound _ hvalue), Session.get?_bound hloaded, hnames]
    by_cases hname : binding.name = name
    · rw [List.filter_cons_of_pos (by simpa using hname), List.getLast?_cons, if_pos hname.symm]
      cases (rest.filter (·.1.name = name)).getLast? <;> rfl
    · rw [List.filter_cons_of_neg (by simpa using hname), if_neg (Ne.symm hname)]

end CommandLine

end Doctest
