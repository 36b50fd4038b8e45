import Doctest.Check.Block
import Doctest.Check.Evaluator
import Doctest.Document.Marker

/-!
# Running a block

The statements of a block are gone through in order. Each input makes a result, each expectation
is compared with it, and the first one that is not met ends the block.
-/

namespace Doctest

/-- Whether a block passed, or why it failed. -/
inductive Verdict where
  | pass
  | fail (fault : BlockFault)
  deriving DecidableEq, Repr

namespace Verdict

/-- The verdict on a run that ended well or with a fault. -/
def ofResult : Except BlockFault Unit → Verdict
  | .ok _ => .pass
  | .error fault => .fail fault

/-- Whether a block passed. -/
def isPass : Verdict → Bool
  | .pass => true
  | .fail _ => false

/-- Why a block failed, in words. -/
def message? : Verdict → Option String
  | .pass => none
  | .fail fault => some fault.message

/-- The marker to put after a block. -/
def marker : Verdict → Marker
  | .pass => .pass
  | .fail fault => .fail fault.message

end Verdict

/-- How far a block was run: the last input, and the result to compare with next. -/
structure Progress (V : Type) where
  input : String
  result : V

namespace Evaluator

variable {m : Type → Type} {V : Type} [Monad m] (lang : Evaluator m V)

/-- Runs an input. What it raises is its result. -/
def start (code : String) : ExceptT BlockFault m (Progress V) := do
  match ← lang.evaluate code with
  | .ok result | .error result => return ⟨code, result⟩

/-- A value that has to be there for a comparison; the payload is to blame if one is raised in its
place. -/
def required (payload : String) (value : m (Except V V)) : ExceptT BlockFault m V := do
  match ← value with
  | .ok value => return value
  | .error raised => throw (.evaluation payload (← lang.errorMessage raised))

/-- The text that a property of a value makes, after the opening of a statement. -/
def described (statement : Statement) (value : V) (key : String) : ExceptT BlockFault m V := do
  let found ← lang.required statement.payload (lang.property value key)
  lang.text (statement.kind.opening ++ (← lang.display found))

/-- The text that a statement expects: all of its line. -/
def stated (statement : Statement) : ExceptT BlockFault m V :=
  lang.text (statement.kind.opening ++ statement.payload)

/-- The outcome of awaiting a value, named by how it settled. -/
def settled (value : V) : ExceptT BlockFault m V := do
  match ← lang.settle value with
  | .ok value => lang.record "Resolve" value
  | .error reason => lang.record "Reject" reason

/-- The text that a property of the reason makes for which a value is rejected. A value that is
fulfilled makes no text. -/
def rejection (statement : Statement) (value : V) (key : String) : ExceptT BlockFault m V := do
  match ← lang.settle value with
  | .ok value => lang.record "Resolve" value
  | .error reason => lang.described statement reason key

/-- The value of the code of a statement. -/
def expected (statement : Statement) : ExceptT BlockFault m V :=
  lang.required statement.payload (lang.evaluate statement.payload)

/-- Compares what there is with what is expected. What there is becomes the result. -/
def compare (progress : Progress V) (actual expected : ExceptT BlockFault m V) :
    ExceptT BlockFault m (Progress V) := do
  let actual ← actual
  let expected ← expected
  if ← lang.deepEquals actual expected then return { progress with result := actual }
  else throw (.mismatch progress.input (← lang.inspect expected) (← lang.inspect actual))

/-- Runs one statement. Only those about settled results await the result. -/
def step (progress : Progress V) (statement : Statement) : ExceptT BlockFault m (Progress V) :=
  let result := progress.result
  match statement.kind with
  | .input => lang.start statement.payload
  | .output => lang.compare progress (pure result) (lang.expected statement)
  | .resolve =>
    lang.compare progress (lang.settled result)
      (lang.expected statement >>= fun value => lang.record "Resolve" value)
  | .reject =>
    lang.compare progress (lang.settled result)
      (lang.expected statement >>= fun value => lang.record "Reject" value)
  | .rejectError =>
    lang.compare progress (lang.rejection statement result "message") (lang.stated statement)
  | .rejectErrorCode =>
    lang.compare progress (lang.rejection statement result "errorCode") (lang.stated statement)
  | .error =>
    lang.compare progress (lang.described statement result "message") (lang.stated statement)
  | .errorCode =>
    lang.compare progress (lang.described statement result "code") (lang.stated statement)

/-- Runs statements, the first of which has to be an input. -/
def runStatements : List Statement → ExceptT BlockFault m Unit
  | ⟨.input, code⟩ :: rest => do
    let progress ← lang.start code
    discard (rest.foldlM lang.step progress)
  | _ => throw .noInput

/-- Runs the text of a block. Nothing is run if its lines do not make statements. -/
def runBlock (code : String) : m Verdict :=
  match Block.statements code with
  | .ok statements => Verdict.ofResult <$> (lang.runStatements statements).run
  | .error fault => pure (.fail fault)

end Evaluator

end Doctest
