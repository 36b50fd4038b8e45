import Doctest.Check.Run
import Doctest.Json.Basic

/-!
# Reports

The verdicts on the blocks of a document.
-/

namespace Doctest

/-- The verdict on a block, and the line of its opening fence. -/
structure BlockResult where
  line : Nat
  verdict : Verdict
  deriving DecidableEq, Repr

/-- The results of the blocks of a document, in order. -/
structure Report where
  blocks : List BlockResult
  deriving DecidableEq, Repr

namespace Report

/-- The number of blocks that were checked. -/
def total (report : Report) : Nat :=
  report.blocks.length

/-- The number of blocks that passed. -/
def passed (report : Report) : Nat :=
  report.blocks.countP (·.verdict.isPass)

/-- The blocks that failed. -/
def failures (report : Report) : List BlockResult :=
  report.blocks.filter (!·.verdict.isPass)

/-- The number of blocks that failed. -/
def failed (report : Report) : Nat :=
  report.failures.length

/-- Whether no block failed. -/
def isSuccess (report : Report) : Bool :=
  report.failures.isEmpty

/-- A count in JSON. -/
def count (n : Nat) : Json :=
  .number (Float.ofNat n)

/-- The result of a block in JSON. -/
def blockJson (block : BlockResult) : Json :=
  let verdict :=
    match block.verdict.message? with
    | none => [("status", Json.string "pass")]
    | some message => [("status", .string "fail"), ("message", .string message)]
  .object (("line", count block.line) :: verdict)

/-- The report in JSON. -/
def json (report : Report) : Json :=
  .object
    [("blocks", .array (report.blocks.map blockJson)), ("total", count report.total),
      ("passed", count report.passed), ("failed", count report.failed)]

end Report

end Doctest
