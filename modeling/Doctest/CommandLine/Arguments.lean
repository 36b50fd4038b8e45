/-!
# Arguments

The arguments of the program: options, and inputs that name the document and bindings.
-/

namespace Doctest.CommandLine

/-- The arguments of one run of the program. -/
structure Arguments where
  /-- The document, and the bindings that are installed before its blocks are run. -/
  inputs : List String := []
  /-- Where the annotated document is written to. -/
  report : Option String := none
  /-- The languages that are checked besides the usual ones. -/
  languages : List String := []
  /-- Whether the markers of an earlier run are removed. -/
  strips : Bool := false
  /-- Whether the results are printed as JSON. -/
  json : Bool := false
  /-- Whether more is wanted to be told. -/
  verbose : Bool := false
  deriving DecidableEq, Repr

/-- What is wrong with arguments. -/
inductive ArgumentFault where
  | unexpected (arg : String)
  | missingValue (option : String)
  | repeated (option : String)
  deriving DecidableEq, Repr

/-- The message about a fault in the arguments. -/
def ArgumentFault.message : ArgumentFault → String
  | .unexpected arg => "unexpected argument '" ++ arg ++ "'"
  | .missingValue option => "a value is required for '" ++ option ++ "'"
  | .repeated option => "'" ++ option ++ "' cannot be used multiple times"

namespace Arguments

/-- The value that an argument gives an option after an equals sign. -/
def valueOf? (option arg : String) : Option String :=
  ((option ++ "=").toList.isPrefixOf? arg.toList).map String.ofList

/-- Whether an argument stands for itself, and not for an option. -/
def isPlain (arg : String) : Bool :=
  arg = "-" || !(['-'].isPrefixOf arg.toList)

/-- Sets the path of the report, which cannot be empty. -/
def withReport (args : Arguments) (path : String) : Except ArgumentFault Arguments :=
  if args.report.isSome then .error (.repeated "--report")
  else if path.isEmpty then .error (.missingValue "--report")
  else .ok { args with report := some path }

/-- Sets a switch that is not set yet. -/
def withSwitch (isSet : Bool) (option : String) (args : Arguments) :
    Except ArgumentFault Arguments :=
  if isSet then .error (.repeated option) else .ok args

/-- Adds an argument that is an option without a value, or an option and its value in one. -/
def withOption (args : Arguments) (arg : String) : Except ArgumentFault Arguments :=
  if arg = "--strip" then withSwitch args.strips arg { args with strips := true }
  else if arg = "--json" then withSwitch args.json arg { args with json := true }
  else if arg = "--verbose" || arg = "-v" then
    withSwitch args.verbose "--verbose" { args with verbose := true }
  else
    match valueOf? "--report" arg, valueOf? "--lang" arg with
    | some path, _ => args.withReport path
    | none, some language => .ok { args with languages := args.languages ++ [language] }
    | none, none => .error (.unexpected arg)

/-- Adds an argument that stands for itself. -/
def withInput (args : Arguments) (input : String) : Arguments :=
  { args with inputs := args.inputs ++ [input] }

/-- Adds arguments from the first to the last. After `--` all stand for themselves. -/
def addAll (args : Arguments) : List String → Except ArgumentFault Arguments
  | [] => .ok args
  | arg :: rest =>
    if arg = "--" then .ok { args with inputs := args.inputs ++ rest }
    else if isPlain arg then (args.withInput arg).addAll rest
    else if arg = "--report" || arg = "--lang" then
      match rest with
      | [] => .error (.missingValue arg)
      | value :: rest =>
        if !isPlain value then .error (.missingValue arg)
        else
          match args.withOption (arg ++ "=" ++ value) with
          | .ok args => args.addAll rest
          | .error fault => .error fault
    else
      match args.withOption arg with
      | .ok args => args.addAll rest
      | .error fault => .error fault

/-- Reads arguments. -/
def ofList (args : List String) : Except ArgumentFault Arguments :=
  ({} : Arguments).addAll args

end Arguments

end Doctest.CommandLine
