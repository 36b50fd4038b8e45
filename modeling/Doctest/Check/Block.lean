import Doctest.Check.Statement

/-!
# The statements of a block

Continuation lines are folded into the statement before them.
-/

namespace Doctest

/-- Why a block failed. -/
inductive BlockFault where
  /-- A continuation line comes before any statement. -/
  | strayContinuation
  /-- A continuation line follows a statement that cannot be continued. -/
  | notContinuable (kind : StatementKind)
  /-- The block does not begin with an input. -/
  | noInput
  /-- What a line expects could not be evaluated. -/
  | evaluation (code message : String)
  /-- The result of an input is not the expected one. -/
  | mismatch (input expected actual : String)
  deriving DecidableEq, Repr

/-- The message of a fault. -/
def BlockFault.message : BlockFault → String
  | .strayContinuation => "Continuation must be preceded by input or expected output"
  | .notContinuable kind => "Continuation is not supported for " ++ kind.name
  | .noInput => "at least one input required"
  | .evaluation code message => "failed to eval output `" ++ code ++ "`: " ++ message
  | .mismatch input expected actual =>
    input ++ " => expected " ++ expected ++ ", but got " ++ actual

namespace Block

/-- Adds a line to the statements before it, the last of which comes first. -/
def addLine (before : List Statement) : BlockLine → Except BlockFault (List Statement)
  | .statement statement => .ok (statement :: before)
  | .continuation rest =>
    match before with
    | [] => .error .strayContinuation
    | last :: earlier =>
      if last.kind.isContinuable then .ok (last.continued rest :: earlier)
      else .error (.notContinuable last.kind)

/-- The lines of a block, each without a carriage return at its end. -/
def lines (code : String) : List BlockLine :=
  (Text.splitLines code.toList).map fun line => BlockLine.ofLine (Text.dropReturn line)

/-- The statements of a block, or the first fault among its continuation lines. -/
def statements (code : String) : Except BlockFault (List Statement) :=
  ((lines code).foldlM addLine []).map List.reverse

end Block

end Doctest
