import Doctest.CommandLine.File
import Doctest.Json.Read
import Doctest.Script.Session
import Doctest.Text.Category

/-!
# Bindings

Names that are bound to the contents of files before the first block is run. A file of JSON is
the value it stands for, and any other file is a script that gives the value.
-/

namespace Doctest.CommandLine

/-- Why the program ends without checking a document. -/
inductive CommandFault where
  | noDocument
  | badName (name : String)
  | noPath (name : String)
  | unreadable (path : String) (fault : FileFault)
  | unreadableBinding (name path : String) (fault : FileFault)
  | badJson (path : String)
  | badScript (path : String) (position : Text.Position) (fault : Script.Fault)
  | raised (path description : String)
  | unwritable (path : String) (fault : FileFault)
  /-- A script needs more levels of nested calls than were granted. -/
  | endless
  deriving DecidableEq

/-- The message about a fault. -/
def CommandFault.message : CommandFault → String
  | .noDocument => "missing document filename"
  | .badName name => "binding name `" ++ name ++ "` is not an identifier"
  | .noPath name => "binding `" ++ name ++ "` has no path"
  | .unreadable path fault => "reading " ++ path ++ ": " ++ fault.message
  | .unreadableBinding name path fault =>
    "reading binding `" ++ name ++ "` from " ++ path ++ ": " ++ fault.message
  | .badJson path => "parsing " ++ path ++ ": not valid JSON"
  | .badScript path position fault =>
    path ++ ":" ++ toString position.line ++ ":" ++ toString position.column ++
      ": SyntaxError: " ++ fault.message
  | .raised path description => "evaluating " ++ path ++ ": " ++ description
  | .unwritable path fault => "writing " ++ path ++ ": " ++ fault.message
  | .endless => "evaluation does not end"

/-- A name, and the path of the file that it is bound to. -/
structure Binding where
  name : String
  path : String
  deriving DecidableEq, Repr

/-- Whether a text may be bound: a letter of any script, an underscore or a dollar sign, and then
also numbers. -/
def isBindable : List Char → Bool
  | [] => false
  | c :: s =>
    (Text.isAlphabetic c || c = '_' || c = '$') &&
      s.all fun d => Text.isAlphanumeric d || d = '_' || d = '$'

namespace Binding

/-- The binding that an input asks for; none if there is no equals sign in it. -/
def ofInput? (input : String) : Option (Except CommandFault Binding) :=
  let name := input.toList.takeWhile (· ≠ '=')
  match input.toList.drop name.length with
  | [] => none
  | _ :: path =>
    some <|
      if !isBindable name then .error (.badName (String.ofList name))
      else if path.isEmpty then .error (.noPath (String.ofList name))
      else .ok ⟨String.ofList name, String.ofList path⟩

/-- The value of a script that is run by itself. -/
def runAlone (levels : Nat) (program : List Script.Stmt) : Script.Step Script.Outcome :=
  Script.Step.ofEval fun _ => do
    Script.runProgram (Script.invoke levels) (← Script.Library.newScope) program

/-- The value that a binding gives its name, from the text of its file. -/
def value (levels : Nat) (binding : Binding) (text : String) :
    Script.Step (Except CommandFault Script.Value) := do
  let path := binding.path
  if extension? path = some "json" then
    match Json.read? text with
    | none => return .error (.badJson path)
    | some json =>
      return (← Script.Step.ofEval fun _ => Script.ofJson json).mapError fun _ => .badJson path
  else
    match Script.parse text with
    | .error fault =>
      let position := (Text.LineMap.ofText text.toList).position fault.span.start
      return .error (.badScript path position fault)
    | .ok program =>
      match ← runAlone levels program with
      | .ok value => return .ok value
      | .error reason => return .error (.raised path ((← get).heap.description reason))

/-- Installs a binding, given the text of its file. -/
def install (levels : Nat) (binding : Binding) (text : String) :
    Script.Step (Except CommandFault Unit) := do
  match ← binding.value levels text with
  | .error fault => return .error fault
  | .ok value =>
    let _ ← Script.Step.ofEval fun scope => do
      scope.define binding.name value true
      return value
    return .ok ()

end Binding

end Doctest.CommandLine
