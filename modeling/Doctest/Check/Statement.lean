import Doctest.Text.Blank
import Doctest.Text.Lines

/-!
# Statements of a block

Each line of a block is an input, an expected result in one of seven forms, or the continuation of
the line before it.
-/

namespace Doctest

/-- What a statement asks for. -/
inductive StatementKind where
  /-- Code to run. -/
  | input
  /-- An expression that the result must equal. -/
  | output
  /-- An expression that the result, once awaited, must be fulfilled with. -/
  | resolve
  /-- An expression that the result, once awaited, must be rejected with. -/
  | reject
  /-- The message that the result, once awaited, must be rejected with. -/
  | rejectError
  /-- The code that the result, once awaited, must be rejected with. -/
  | rejectErrorCode
  /-- The message that the result must carry. -/
  | error
  /-- The code that the result must carry. -/
  | errorCode
  deriving DecidableEq, Repr

namespace StatementKind

/-- The name of a kind in messages. -/
def name : StatementKind → String
  | .input => "input"
  | .output => "output"
  | .resolve => "resolve"
  | .reject => "reject"
  | .rejectError => "reject error"
  | .rejectErrorCode => "reject error code"
  | .error => "error"
  | .errorCode => "error code"

/-- How a line of a kind begins; an output has no opening of its own. -/
def opening : StatementKind → String
  | .input => "> "
  | .output => ""
  | .resolve => "Resolve: "
  | .reject => "Reject: "
  | .rejectError => "Reject error: "
  | .rejectErrorCode => "Reject error code: "
  | .error => "Error: "
  | .errorCode => "Error code: "

/-- Whether further lines may continue a statement: those that hold code may be continued, those
that hold a literal text may not. -/
def isContinuable : StatementKind → Bool
  | .input | .output | .resolve | .reject => true
  | .rejectError | .rejectErrorCode | .error | .errorCode => false

/-- The kinds that are recognized by how their lines begin. -/
def marked : List StatementKind :=
  [.input, .resolve, .reject, .rejectError, .rejectErrorCode, .error, .errorCode]

end StatementKind

/-- A statement: its kind, and the code or text that follows the opening. -/
structure Statement where
  kind : StatementKind
  payload : String
  deriving DecidableEq, Repr

/-- What one line of a block is. -/
inductive BlockLine where
  | statement (statement : Statement)
  | continuation (rest : String)
  deriving DecidableEq, Repr

namespace BlockLine

/-- How a continuation begins. -/
def continuationOpening : String :=
  "... "

/-- The first of some kinds whose opening a line has, with the rest of the line. -/
def marked? (line : List Char) : List StatementKind → Option Statement
  | [] => none
  | kind :: kinds =>
    match kind.opening.toList.isPrefixOf? line with
    | some rest => some ⟨kind, String.ofList rest⟩
    | none => marked? line kinds

/-- What a line is. A line without a known opening is an expected output. -/
def ofLine (line : List Char) : BlockLine :=
  match marked? line StatementKind.marked with
  | some found => .statement found
  | none =>
    match continuationOpening.toList.isPrefixOf? line with
    | some rest => .continuation (String.ofList rest)
    | none => .statement ⟨.output, String.ofList line⟩

end BlockLine

/-- A statement continued by the rest of a further line. -/
def Statement.continued (statement : Statement) (rest : String) : Statement :=
  { statement with
    payload := String.ofList
      (Text.trim statement.payload.toList ++ ' ' :: Text.trim rest.toList) }

end Doctest
