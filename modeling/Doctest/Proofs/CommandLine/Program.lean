import Doctest.Proofs.Check.Placement
import Doctest.Proofs.CommandLine.Bindings
import Doctest.Proofs.CommandLine.Files

/-!
# What the program does

Everything that can be refused is refused before anything is printed or written. Once the document
is checked, the only file that changes is the report, and the exit code tells what came of the
check.
-/

namespace Doctest

namespace CommandLine

open Script (Session Value evaluator)

/-- All that a run needs before it checks a document: the last one of the inputs that are no
bindings leads to a text, and the other inputs ask for bindings that can be installed in turn. -/
structure Prepared (levels : Nat) (files : Files) (inputs : List String)
    (bound : List (Binding × Value)) (path source : String) (session : Session) : Prop where
  document : (inputs.filter (!isBinding ·)).getLast? = some path
  readable : files.read path = .ok source
  asked : List.Forall₂ (fun input binding => binding.IsAskedBy input) (inputs.filter isBinding)
    (bound.map Prod.fst)
  installed : Installs levels files Session.new bound session

theorem Prepared.splitInputs_eq {levels : Nat} {files : Files} {inputs : List String}
    {bound : List (Binding × Value)} {path source : String} {session : Session}
    (h : Prepared levels files inputs bound path source session) :
    splitInputs inputs = .ok (bound.map Prod.fst, some path) :=
  splitInputs_eq_ok_iff.mpr ⟨h.asked, h.document⟩

/-- The line about a block; there is none about a block that passed. -/
def failureLine? (isColored : Bool) (block : BlockResult) : Option String :=
  match block.verdict with
  | .pass => none
  | .fail fault =>
    some (styled isColored .bold ("Line " ++ toString block.line) ++ ": " ++ fault.message ++ "\n")

/-- What a run tells of a check that came to an end, by where the report is to be written: the exit
code, the files and what was printed. -/
inductive Tells (isColored : Bool) (files : Files) (printed : String) (report : Report)
    (doc : Document) : Option String → UInt32 × Transcript → Prop
  | written {path : String} {changed : Files} (hwrite : files.write path doc.render = .ok changed)
    (hread : changed.read path = .ok doc.render) :
    Tells isColored files printed report doc (some path) (0, ⟨changed, printed, ""⟩)
  | unwritable {path : String} {fault : FileFault}
    (hwrite : files.write path doc.render = .error fault) :
    Tells isColored files printed report doc (some path)
      (1, ⟨files, printed, errorLine isColored (CommandFault.unwritable path fault).message⟩)
  | passed (h : ∀ block ∈ report.blocks, block.verdict = .pass) :
    Tells isColored files printed report doc none (0, ⟨files, printed, ""⟩)
  | failed (h : ¬ ∀ block ∈ report.blocks, block.verdict = .pass) :
    Tells isColored files printed report doc none
      (1, ⟨files, printed, String.join (report.blocks.filterMap (failureLine? isColored)) ++
        errorLine isColored "Errors present in specification"⟩)

/-- Whatever is told, only the report is written. -/
theorem Tells.kept {isColored : Bool} {files : Files} {printed : String} {report : Report}
    {doc : Document} {report? : Option String} {told : UInt32 × Transcript}
    (h : Tells isColored files printed report doc report? told) {place : String}
    (hne : told.2.files.texts.get? place ≠ files.texts.get? place) :
    ∃ path, report? = some path ∧ files.destination path = .ok place := by
  cases h with
  | written hwrite => exact ⟨_, rfl, Files.destination_of_get?_ne hwrite hne⟩
  | unwritable | passed | failed => exact absurd rfl hne

/-- What there is to say about a run: only the report is written, and the exit code and the errors
tell what came of the check, or that there was none. -/
structure RunOutcome (levels : Nat) (isColored : Bool) (args : Arguments) (files : Files)
    (code : UInt32) (after : Transcript) : Prop where
  /-- No file is new or changed but the one at the path of the report. -/
  kept : ∀ place, after.files.texts.get? place ≠ files.texts.get? place →
    ∃ path, args.report = some path ∧ files.destination path = .ok place
  /-- The last binding of a name is the one that the document is checked with. -/
  names : ∀ {bound path source session},
    Prepared levels files args.inputs bound path source session → ∀ name,
      session.get? name =
        ((bound.filter (·.1.name = name)).getLast?.map Prod.snd).or (Session.new.get? name)
  tells : ∀ {bound path source session report doc last},
    Prepared levels files args.inputs bound path source session →
    ((evaluator levels).checkDocument args.settings (.parse source)).run session =
      some ((report, doc), last) →
    Tells isColored files (results isColored args path report) report doc args.report (code, after)
  /-- The report has the checked blocks in the order of the document. -/
  ordered : ∀ {bound path source session report doc last},
    Prepared levels files args.inputs bound path source session →
    ((evaluator levels).checkDocument args.settings (.parse source)).run session =
      some ((report, doc), last) →
    report.blocks.map BlockResult.line =
        (Document.checked args.settings (Document.parse source).nodes).map CodeBlock.line ∧
      (report.blocks.map BlockResult.line).Pairwise (· < ·)
  /-- Without a document that can be read and bindings that can all be installed there is no
  output. -/
  refuses : (∀ bound path source session,
      ¬ Prepared levels files args.inputs bound path source session) →
    code = 1 ∧ ∃ fault : CommandFault, after = ⟨files, "", errorLine isColored fault.message⟩

/-! ### Steps of a run -/

namespace Host

variable {α β : Type} {levels : Nat} {isColored : Bool} {files : Files}

theorem run_bind (x : Run (StateM Transcript) α) (f : α → Run (StateM Transcript) β)
    (start : Transcript) :
    (x >>= f).run start =
      match x.run start with
      | (.ok a, next) => (f a).run next
      | (.error fault, next) => (.error fault, next) := by
  change (match x.run start with | (found, next) => ExceptT.bindCont f found next) = _
  rcases x.run start with ⟨_ | _, next⟩ <;> rfl

theorem read_run (path : String) (start : Transcript) :
    (liftM (Transcript.host.read path) :
        Run (StateM Transcript) (Except FileFault String)).run start =
      (.ok (start.files.read path), start) :=
  rfl

theorem print_run (text : String) (start : Transcript) :
    (liftM (Transcript.host.print text) : Run (StateM Transcript) Unit).run start =
      (.ok (), { start with output := start.output ++ text }) :=
  rfl

theorem complain_run (text : String) (start : Transcript) :
    (liftM (Transcript.host.complain text) : Run (StateM Transcript) Unit).run start =
      (.ok (), { start with errors := start.errors ++ text }) :=
  rfl

theorem write_run (path text : String) (start : Transcript) :
    (liftM (Transcript.host.write path text) :
        Run (StateM Transcript) (Except FileFault Unit)).run start =
      match start.files.write path text with
      | .ok files => (.ok (.ok ()), { start with files })
      | .error fault => (.ok (.error fault), start) := by
  change (_, _) = _
  simp only [Transcript.host]
  cases start.files.write path text <;> rfl

theorem require_run (path : String) (refuse : FileFault → CommandFault) (start : Transcript) :
    (Transcript.host.require path refuse).run start =
      ((start.files.read path).mapError refuse, start) := by
  rw [require, run_bind, read_run]
  cases start.files.read path <;> rfl

theorem perform_run (session : Session) (step : Script.Step α) (start : Transcript) :
    (perform session step : Run (StateM Transcript) (α × Session)).run start =
      match step.run session with
      | some found => (.ok found, start)
      | none => (.error .endless, start) := by
  change (match step.run session with
    | some found => pure found
    | none => throw .endless : Run (StateM Transcript) (α × Session)).run start = _
  cases step.run session <;> rfl

/-- Installing bindings changes nothing but the session, and comes to an end exactly if all of them
can be installed. -/
theorem install_run (session : Session) (bindings : List Binding) (start : Transcript) :
    ∃ found, (Transcript.host.install levels session bindings).run start = (found, start) ∧
      ∀ last, found = .ok last ↔ ∃ bound : List (Binding × Value),
        bound.map Prod.fst = bindings ∧ Installs levels start.files session bound last := by
  induction bindings generalizing session with
  | nil =>
    refine ⟨.ok session, rfl, fun last => ⟨?_, ?_⟩⟩
    · rintro ⟨⟩
      exact ⟨[], rfl, .nil session⟩
    · rintro ⟨bound, hbound, hinstalls⟩
      obtain rfl := List.map_eq_nil_iff.mp hbound
      cases hinstalls
      rfl
  | cons binding rest ih =>
    simp only [exists_installs_cons_iff]
    rw [install, run_bind, require_run]
    cases start.files.read binding.path with
    | error fault => exact ⟨_, rfl, fun last => ⟨nofun, nofun⟩⟩
    | ok text =>
      dsimp only [Except.mapError]
      rw [run_bind, perform_run]
      rcases hfirst : (binding.install levels text).run session with _ | ⟨_ | _, next⟩
      case none =>
        refine ⟨_, rfl, fun last => ⟨nofun, ?_⟩⟩
        rintro ⟨_, _, ⟨⟩, hinstall, -⟩
        cases hfirst.symm.trans hinstall
      case some.error =>
        refine ⟨_, rfl, fun last => ⟨nofun, ?_⟩⟩
        rintro ⟨_, _, ⟨⟩, hinstall, -⟩
        cases hfirst.symm.trans hinstall
      case some.ok =>
        obtain ⟨found, hrun, hfound⟩ := ih next
        refine ⟨found, hrun, fun last => (hfound last).trans ⟨?_, ?_⟩⟩
        · exact fun hrest => ⟨text, next, rfl, hfirst, hrest⟩
        · rintro ⟨_, _, ⟨⟩, hinstall, hrest⟩
          cases hfirst.symm.trans hinstall
          exact hrest

/-- Preparing a run changes nothing, and comes to an end exactly if all is there that it needs. -/
theorem prepare_run (levels : Nat) (inputs : List String) (start : Transcript) :
    ∃ found, (Transcript.host.prepare levels inputs).run start = (found, start) ∧
      ∀ path doc session, found = .ok (path, doc, session) ↔ ∃ bound source,
        Prepared levels start.files inputs bound path source session ∧
          Document.parse source = doc := by
  have hsplit : (MonadExcept.ofExcept (splitInputs inputs) :
      Run (StateM Transcript) (List Binding × Option String)).run start =
        (splitInputs inputs, start) := by
    cases splitInputs inputs <;> rfl
  rw [prepare, run_bind, hsplit]
  rcases hinputs : splitInputs inputs with fault | ⟨bindings, _ | path⟩
  case error =>
    refine ⟨_, rfl, fun _ _ _ => ⟨nofun, ?_⟩⟩
    rintro ⟨bound, source, hprepared, -⟩
    cases hinputs.symm.trans hprepared.splitInputs_eq
  case ok.none =>
    refine ⟨_, rfl, fun _ _ _ => ⟨nofun, ?_⟩⟩
    rintro ⟨bound, source, hprepared, -⟩
    cases hinputs.symm.trans hprepared.splitInputs_eq
  case ok.some =>
    dsimp only
    rw [run_bind, require_run]
    cases hread : start.files.read path with
    | error fault =>
      refine ⟨_, rfl, fun _ _ _ => ⟨nofun, ?_⟩⟩
      rintro ⟨bound, source, hprepared, -⟩
      cases hinputs.symm.trans hprepared.splitInputs_eq
      cases hread.symm.trans hprepared.readable
    | ok source =>
      dsimp only [Except.mapError]
      obtain ⟨found, hrun, hfound⟩ := install_run Session.new bindings start
      rw [run_bind, hrun]
      refine ⟨found.map fun session => (path, Document.parse source, session),
        by cases found <;> rfl, fun _ _ session => ⟨fun h => ?_, ?_⟩⟩
      · cases found with
        | error fault => cases h
        | ok last =>
          cases h
          obtain ⟨bound, rfl, hinstalls⟩ := (hfound session).mp rfl
          obtain ⟨hasked, hlast⟩ := splitInputs_eq_ok_iff.mp hinputs
          exact ⟨bound, source, ⟨hlast, hread, hasked, hinstalls⟩, rfl⟩
      · rintro ⟨bound, _, hprepared, rfl⟩
        cases hinputs.symm.trans hprepared.splitInputs_eq
        cases hread.symm.trans hprepared.readable
        rw [(hfound session).mpr ⟨bound, rfl, hprepared.installed⟩]
        rfl

/-- The exit code of a run and what it did, from how its check went. -/
def finish (isColored : Bool) : Except CommandFault UInt32 × Transcript → UInt32 × Transcript
  | (.ok code, after) => (code, after)
  | (.error fault, after) =>
    (1, { after with errors := after.errors ++ errorLine isColored fault.message })

theorem run_eq_finish {args : List String} {parsed : Arguments}
    (hargs : Arguments.ofList args = .ok parsed) (start : Transcript) :
    Transcript.host.run levels isColored args start =
      finish isColored ((Transcript.host.check levels isColored parsed).run start) := by
  unfold run
  rw [hargs]
  change StateT.run ((Transcript.host.check levels isColored parsed).run >>= _) start =
    finish isColored (StateT.run (Transcript.host.check levels isColored parsed).run start)
  rw [StateT.run_bind]
  rcases StateT.run (Transcript.host.check levels isColored parsed).run start with
    ⟨_ | _, next⟩ <;> rfl

/-- The lines about the blocks that failed are those about all blocks that have one. -/
theorem failureLines_eq (isColored : Bool) (report : Report) :
    failureLines isColored report =
      String.join (report.blocks.filterMap (failureLine? isColored)) ++
        errorLine isColored "Errors present in specification" := by
  unfold failureLines Report.failures
  dsimp only
  congr 2
  induction report.blocks with
  | nil => rfl
  | cons block rest ih =>
    obtain ⟨line, _ | fault⟩ := block
    · rw [List.filter_cons_of_neg (by simp [Verdict.isPass]), ih]
      rfl
    · rw [List.filter_cons_of_pos rfl, List.map_cons, ih]
      rfl

/-- The end of a run that checked its document. -/
theorem tells_finish_tell (args : Arguments) (path : String) (report : Report) (doc : Document) :
    Tells isColored files (results isColored args path report) report doc args.report
      (finish isColored
        ((Transcript.host.tell isColored args path report doc).run { files })) := by
  rw [tell, run_bind, print_run]
  dsimp only
  rw [String.empty_append]
  cases args.report with
  | some reportPath =>
    dsimp only
    rw [run_bind, write_run]
    cases hwrite : files.write reportPath doc.render with
    | error fault =>
      change Tells _ _ _ _ _ _ (1, ⟨files, _, "" ++ errorLine isColored _⟩)
      rw [String.empty_append]
      exact .unwritable hwrite
    | ok changed => exact .written hwrite (Files.read_of_write hwrite)
  | none =>
    dsimp only
    by_cases hsuccess : report.isSuccess = true
    · rw [if_pos hsuccess]
      exact .passed (report.isSuccess_iff.mp hsuccess)
    · rw [if_neg hsuccess, run_bind, complain_run]
      dsimp only
      rw [String.empty_append, failureLines_eq]
      exact .failed (mt report.isSuccess_iff.mpr hsuccess)

/-- A run that has all it needs checks the document and tells what came of that. -/
theorem check_run {args : Arguments} {start : Transcript} {bound : List (Binding × Value)}
    {path source : String} {session : Session}
    (h : Prepared levels start.files args.inputs bound path source session) :
    (Transcript.host.check levels isColored args).run start =
      match ((evaluator levels).checkDocument args.settings (.parse source)).run session with
      | some ((report, doc), _) =>
        (Transcript.host.tell isColored args path report doc).run start
      | none => (.error .endless, start) := by
  obtain ⟨found, hrun, hfound⟩ := prepare_run levels args.inputs start
  obtain rfl := (hfound _ _ _).mpr ⟨bound, source, h, rfl⟩
  rw [check, run_bind, hrun]
  dsimp only
  rw [run_bind, perform_run]
  rcases ((evaluator levels).checkDocument args.settings (.parse source)).run session with
    _ | ⟨⟨report, doc⟩, last⟩ <;> rfl

/-- A run that lacks something ends before it does anything. -/
theorem check_run_of_not_prepared (isColored : Bool) {args : Arguments} (start : Transcript)
    (h : ∀ bound path source session,
      ¬ Prepared levels start.files args.inputs bound path source session) :
    ∃ fault, (Transcript.host.check levels isColored args).run start = (.error fault, start) := by
  obtain ⟨found, hrun, hfound⟩ := prepare_run levels args.inputs start
  rw [check, run_bind, hrun]
  cases found with
  | error fault => exact ⟨fault, rfl⟩
  | ok prepared =>
    obtain ⟨bound, source, hprepared, -⟩ := (hfound _ _ _).mp rfl
    exact absurd hprepared (h _ _ _ _)

/-- A document whose blocks do not agree about a name. -/
def twoBlocks : String :=
  "```js\n> a\n'b'\n```\n\n```js\n> a\n'c'\n```\n"

/-- The document, and two files for the name. -/
def twoBindings : Files :=
  ⟨Dict.ofList [("doc.md", twoBlocks), ("one.json", "\"b\""), ("two.json", "\"c\"")]⟩

theorem prepared_twoBindings :
    Prepared Script.amplyManyLevels twoBindings ["a=one.json", "doc.md", "a=two.json"]
      [(⟨"a", "one.json"⟩, .string "b"), (⟨"a", "two.json"⟩, .string "c")] "doc.md"
      twoBlocks ((Session.new.bound "a" (.string "b")).bound "a" (.string "c")) := by
  have hone : twoBindings.read "one.json" = .ok "\"b\"" := by decide +kernel
  have htwo : twoBindings.read "two.json" = .ok "\"c\"" := by decide +kernel
  have hb : Json.read? "\"b\"" = some (.string "b") := rfl
  have hc : Json.read? "\"c\"" = some (.string "c") := rfl
  have hname : isBindable "a".toList = true := by decide +kernel
  have hgives (text : String) (session : Session) :
      (Script.Step.ofEval fun _ => Script.ofJson (.string text)).run session =
        some (.ok (.string text), session) := rfl
  constructor
  case document => decide +kernel
  case readable => decide +kernel
  case asked => exact .cons ⟨rfl, hname, by decide⟩ (.cons ⟨rfl, hname, by decide⟩ .nil)
  case installed =>
    exact .cons hone (.json (by decide +kernel) hb (hgives _ _))
      (.cons htwo (.json (by decide +kernel) hc (hgives _ _)) (.nil _))

end Host

end CommandLine

end Doctest
