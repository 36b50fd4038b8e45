import Doctest.Document.Marker
import Doctest.Text.Lines

/-!
# Documents

A markdown document as a sequence of texts, code blocks and markers that keeps every character:
the raw texts of the nodes put together are the document.
-/

namespace Doctest

/-- A fenced code block: the line of its opening fence counted from one, the fence, and the raw
lines. A block without a closing line runs to the end of the document. -/
structure CodeBlock where
  line : Nat
  fence : Fence
  opening : List Char
  body : List (List Char)
  closing : Option (List Char)
  deriving DecidableEq, Repr

namespace CodeBlock

/-- The language named after the opening fence. -/
def language? (block : CodeBlock) : Option String :=
  block.fence.language?

/-- Whether the block has a closing fence. -/
def isClosed (block : CodeBlock) : Bool :=
  block.closing.isSome

/-- A line of code: without its terminator, and without as many spaces as the fence has. -/
def codeLine (indent : Nat) (line : List Char) : List Char :=
  let text := Text.dropLineEnd line
  text.drop (min (Fence.leading ' ' text) indent)

/-- The code of the block, its lines put together with line feeds. -/
def value (block : CodeBlock) : String :=
  String.intercalate "\n"
    (block.body.map fun line => String.ofList (codeLine block.fence.indent line))

/-- The characters of the block as they stand in the document. -/
def raw (block : CodeBlock) : List Char :=
  block.opening ++ block.body.flatten ++ block.closing.getD []

/-- The line terminator that the opening fence has, a line feed if it has none. -/
def newline (block : CodeBlock) : List Char :=
  if ['\r', '\n'].isSuffixOf block.opening then ['\r', '\n'] else ['\n']

/-- The last line of the block. -/
def lastLine (block : CodeBlock) : List Char :=
  match block.closing with
  | some line => line
  | none => block.body.getLastD block.opening

/-- Whether the last line of the block has a terminator. -/
def endsLine (block : CodeBlock) : Bool :=
  block.lastLine.getLast? = some '\n'

end CodeBlock

/-- A part of a document. A marker keeps, as its raw text, the blank line that sets it off and
its own line. -/
inductive Node where
  | text (raw : List Char)
  | code (block : CodeBlock)
  | marker (marker : Marker) (raw : List Char)
  deriving DecidableEq, Repr

namespace Node

/-- The characters of a node as they stand in the document. -/
def raw : Node → List Char
  | .text raw => raw
  | .code block => block.raw
  | .marker _ raw => raw

/-- Whether a node is a marker. -/
def isMarker : Node → Bool
  | .marker .. => true
  | _ => false

/-- The code block that a node is. -/
def code? : Node → Option CodeBlock
  | .code block => some block
  | _ => none

/-- The marker that a node is. -/
def marker? : Node → Option Marker
  | .marker found _ => some found
  | _ => none

end Node

/-- A document as its parts in order. -/
structure Document where
  nodes : List Node
  deriving DecidableEq, Repr

namespace Document

/-- The text of a document. -/
def render (doc : Document) : String :=
  String.ofList (doc.nodes.flatMap Node.raw)

/-- The code blocks in order. -/
def codeBlocks (doc : Document) : List CodeBlock :=
  doc.nodes.filterMap Node.code?

/-- The code blocks in order, each with the position of its node. -/
def placedCodeBlocks (doc : Document) : List (Nat × CodeBlock) :=
  doc.nodes.zipIdx.filterMap fun (node, i) => node.code?.map (i, ·)

/-- The markers in order. -/
def markers (doc : Document) : List Marker :=
  doc.nodes.filterMap Node.marker?

end Document

end Doctest
