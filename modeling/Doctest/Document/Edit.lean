import Doctest.Document.Basic

/-!
# Markers in a document

Taking the markers out, and putting one after a code block.
-/

namespace Doctest.Document

/-- The document without its markers. -/
def strip (doc : Document) : Document :=
  ⟨doc.nodes.filter (!Node.isMarker ·)⟩

/-- Whether the first line of a text is blank; a text without lines counts as such. -/
def startsBlank (raw : List Char) : Bool :=
  match Text.lines raw with
  | [] => true
  | line :: _ => Text.allBlank (Text.dropLineEnd line)

/-- Whether a blank line is needed before a node that comes after a marker. -/
def needsGap : Option Node → Bool
  | some (.text raw) => !startsBlank raw
  | some (.code _) => true
  | some (.marker ..) => false
  | none => false

/-- The marker node to stand after a block and before the node that follows it: a blank line on
each side, in the block's own line terminators. -/
def markerAfter (block : CodeBlock) (marker : Marker) (next : Option Node) : Node :=
  let newline := block.newline
  let ended := if block.endsLine then [] else newline
  let gap := if needsGap next then newline else []
  .marker marker (ended ++ newline ++ marker.text ++ newline ++ gap)

/-- The nodes with a marker after the code block at a position; none if no code block is there. -/
def insertAt? (marker : Marker) : Nat → List Node → Option (List Node)
  | _, [] => none
  | 0, .code block :: rest => some (.code block :: markerAfter block marker rest.head? :: rest)
  | 0, _ :: _ => none
  | i + 1, node :: rest => (insertAt? marker i rest).map (node :: ·)

/-- The document with a marker directly after the code block at a position, or none if no code
block is there. -/
def insertMarker? (doc : Document) (index : Nat) (marker : Marker) : Option Document :=
  (insertAt? marker index doc.nodes).map Document.mk

end Doctest.Document
