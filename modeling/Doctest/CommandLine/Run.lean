import Doctest.Check.Document
import Doctest.CommandLine.Arguments
import Doctest.CommandLine.Binding
import Doctest.CommandLine.Host
import Doctest.CommandLine.Style
import Doctest.Document.Parse
import Doctest.Script.Evaluator

/-!
# The program

A run of the program reads a document and the files of its bindings, checks the document and tells
what came of it. The only file that it writes is the report.
-/

namespace Doctest.CommandLine

/-- The bindings among some inputs, and the last input that is none. -/
def splitInputs : List String → Except CommandFault (List Binding × Option String)
  | [] => .ok ([], none)
  | input :: rest =>
    match Binding.ofInput? input with
    | some (.error fault) => .error fault
    | some (.ok binding) => (splitInputs rest).map fun (bindings, path?) =>
        (binding :: bindings, path?)
    | none => (splitInputs rest).map fun (bindings, path?) => (bindings, path?.or (some input))

/-- The settings that arguments ask for. -/
def Arguments.settings (args : Arguments) : Settings :=
  args.languages.foldl Settings.withLanguage { strips := args.strips }

/-- The results of a check, for people to read. -/
def summary (isColored : Bool) (path : String) (report : Report) : String :=
  let paint := styled isColored
  let line (block : BlockResult) : String :=
    let mark := if block.verdict.isPass then paint .green "✓" else paint .red "✗"
    "  " ++ mark ++ " line " ++ toString block.line ++ "\n"
  let passed := paint .green (toString report.passed ++ " passed")
  let failed := toString report.failed ++ " failed"
  paint .underlined path ++ "\n" ++ String.join (report.blocks.map line) ++
    toString report.total ++ " blocks, " ++ passed ++ ", " ++
    (if report.isSuccess then failed else paint .red failed) ++ "\n"

/-- The results of a check, as arguments ask for them. -/
def results (isColored : Bool) (args : Arguments) (path : String) (report : Report) : String :=
  if args.json then report.json.text "  " ++ "\n" else summary isColored path report

/-- A line about an error. -/
def errorLine (isColored : Bool) (message : String) : String :=
  styled isColored .boldRed "error" ++ ": " ++ message ++ "\n"

/-- The lines about the blocks that failed. -/
def failureLines (isColored : Bool) (report : Report) : String :=
  let line (block : BlockResult) : String :=
    styled isColored .bold ("Line " ++ toString block.line) ++ ": " ++
      block.verdict.message?.getD "" ++ "\n"
  String.join (report.failures.map line) ++
    errorLine isColored "Errors present in specification"

namespace Host

variable {m : Type → Type} [Monad m] (host : Host m)

/-- A run of the program, which may end early. -/
abbrev Run (m : Type → Type) := ExceptT CommandFault m

/-- What a step makes of a session. -/
def perform {α : Type} (session : Script.Session) (step : Script.Step α) :
    Run m (α × Script.Session) :=
  match step session with
  | some result => return result
  | none => throw .endless

/-- The text of a file, which has to be there. -/
def require (path : String) (refuse : FileFault → CommandFault) : Run m String := do
  match ← host.read path with
  | .ok text => return text
  | .error fault => throw (refuse fault)

/-- Installs bindings one after the other. -/
def install (levels : Nat) : Script.Session → List Binding → Run m Script.Session
  | session, [] => return session
  | session, binding :: rest => do
    let text ← host.require binding.path (.unreadableBinding binding.name binding.path)
    match ← perform session (binding.install levels text) with
    | (.ok _, session) => install levels session rest
    | (.error fault, _) => throw fault

/-- Reads the document that inputs name and installs their bindings. The result is the path of the
document, the document and the session that it is checked in. -/
def prepare (levels : Nat) (inputs : List String) :
    Run m (String × Document × Script.Session) := do
  let (bindings, path?) ← MonadExcept.ofExcept (splitInputs inputs)
  let some path := path? | throw .noDocument
  let doc := Document.parse (← host.require path (.unreadable path))
  return (path, doc, ← host.install levels Script.Session.new bindings)

/-- Prints the results of a check, and writes the report or tells which blocks failed. The result is
the exit code. -/
def tell (isColored : Bool) (args : Arguments) (path : String) (report : Report)
    (doc : Document) : Run m UInt32 := do
  host.print (results isColored args path report)
  match args.report with
  | some reportPath =>
    match ← host.write reportPath doc.render with
    | .ok _ => return 0
    | .error fault => throw (.unwritable reportPath fault)
  | none =>
    if report.isSuccess then return 0
    else
      host.complain (failureLines isColored report)
      return 1

/-- Checks the document that arguments name, and tells its exit code. -/
def check (levels : Nat) (isColored : Bool) (args : Arguments) : Run m UInt32 := do
  let (path, doc, session) ← host.prepare levels args.inputs
  let ((report, doc), _) ←
    perform session ((Script.evaluator levels).checkDocument args.settings doc)
  host.tell isColored args path report doc

/-- Runs the program, and tells its exit code. -/
def run (levels : Nat) (isColored : Bool) (args : List String) : m UInt32 := do
  match Arguments.ofList args with
  | .error fault =>
    host.complain (errorLine isColored fault.message)
    return 2
  | .ok args =>
    match ← (host.check levels isColored args).run with
    | .ok code => return code
    | .error fault =>
      host.complain (errorLine isColored fault.message)
      return 1

end Host

end Doctest.CommandLine
