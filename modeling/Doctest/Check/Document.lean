import Doctest.Check.Report
import Doctest.Check.Settings
import Doctest.Document.Edit

/-!
# Checking a document

The blocks of a document are run in order, and a marker is put after each.
-/

namespace Doctest

namespace Document

/-- The nodes with a marker after each chosen code block, from the first marker to the last. -/
def annotateNodes (chooses : CodeBlock → Bool) : List Marker → List Node → List Node
  | _, [] => []
  | [], nodes => nodes
  | marker :: markers, .code block :: rest =>
    if chooses block then
      .code block :: markerAfter block marker rest.head? :: annotateNodes chooses markers rest
    else .code block :: annotateNodes chooses (marker :: markers) rest
  | markers, node :: rest => node :: annotateNodes chooses markers rest

/-- The document with a marker after each chosen code block. -/
def annotate (doc : Document) (chooses : CodeBlock → Bool) (markers : List Marker) : Document :=
  ⟨annotateNodes chooses markers doc.nodes⟩

end Document

namespace Evaluator

variable {m : Type → Type} {V : Type} [Monad m] (lang : Evaluator m V)

/-- Checks one block. -/
def checkBlock (block : CodeBlock) : m BlockResult := do
  return ⟨block.line, ← lang.runBlock block.value⟩

/-- Checks the blocks of a document that the settings name. The result is the report, and the
document with the new markers. -/
def checkDocument (settings : Settings) (doc : Document) : m (Report × Document) := do
  let doc := if settings.strips then doc.strip else doc
  let results ← (doc.codeBlocks.filter settings.checks).mapM lang.checkBlock
  let markers := results.map (·.verdict.marker)
  return (⟨results⟩, doc.annotate settings.checks markers)

end Evaluator

end Doctest
