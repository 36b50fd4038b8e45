import Doctest.Document.Fence

/-!
# Markers

One-line paragraphs that record whether the code block before them passed.
-/

namespace Doctest

/-- What a marker records. -/
inductive MarkerKind where
  | pass
  | fail
  deriving DecidableEq, Repr

/-- A marker: what it records, and its line without a terminator. -/
structure Marker where
  kind : MarkerKind
  text : List Char
  deriving DecidableEq, Repr

namespace Marker

/-- How a marker of each kind begins. -/
def opening : MarkerKind → List Char
  | .pass => "✅ ".toList
  | .fail => "❌ ".toList

/-- The marker of a block that passed. -/
def pass : Marker :=
  ⟨.pass, opening .pass ++ "`speccheck`ed".toList⟩

/-- A text on one line: every line break becomes a space, a carriage return and a line feed
together one space. -/
def oneLine : List Char → List Char
  | [] => []
  | '\r' :: '\n' :: s => ' ' :: oneLine s
  | c :: s => (if c = '\n' ∨ c = '\r' then ' ' else c) :: oneLine s

/-- The length of the longest run of backticks. -/
def longestRun : List Char → Nat
  | [] => 0
  | c :: s => max (Fence.leading Fence.backtick (c :: s)) (longestRun s)

/-- A code span: the text between runs of backticks longer than any inside it, with a space at
each end if the text begins or ends with a backtick. -/
def codeSpan (content : List Char) : List Char :=
  let run := List.replicate (longestRun content + 1) Fence.backtick
  if content.head? = some Fence.backtick ∨ content.getLast? = some Fence.backtick then
    run ++ ' ' :: content ++ ' ' :: run
  else run ++ content ++ run

/-- The marker of a block that failed for a reason. -/
def fail (message : String) : Marker :=
  ⟨.fail, opening .fail ++ codeSpan ("Error: ".toList ++ oneLine message.toList)⟩

/-- The marker that a line without its terminator is. -/
def ofLine? (line : List Char) : Option Marker :=
  if (opening .pass).isPrefixOf line then some ⟨.pass, line⟩
  else if (opening .fail).isPrefixOf line then some ⟨.fail, line⟩
  else none

end Marker

end Doctest
