import Doctest.Document.Basic

/-!
# Reading a document

Every text is a document: what is neither a code block nor a marker after one is text.
-/

namespace Doctest.Document

/-- The lines of a block's body, the line that closes it if there is one, and the lines after. -/
def takeBody (fence : Fence) :
    List (List Char) → List (List Char) × Option (List Char) × List (List Char)
  | [] => ([], none, [])
  | line :: rest =>
    if fence.isClosedBy (Text.dropLineEnd line) then ([], some line, rest)
    else
      let taken := takeBody fence rest
      (line :: taken.1, taken.2)

/-- The markers at the front of some lines, each a blank line and a marker line, and the lines
after them. -/
def takeMarkers : List (List Char) → List Node × List (List Char)
  | blank :: line :: rest =>
    match Text.allBlank (Text.dropLineEnd blank), Marker.ofLine? (Text.dropLineEnd line) with
    | true, some marker =>
      let taken := takeMarkers rest
      (.marker marker (blank ++ line) :: taken.1, taken.2)
    | _, _ => ([], blank :: line :: rest)
  | lines => ([], lines)

/-- The rest after a block's body is no longer than what there was. -/
theorem length_takeBody_le (fence : Fence) (lines : List (List Char)) :
    (takeBody fence lines).2.2.length ≤ lines.length := by
  induction lines with
  | nil => simp [takeBody]
  | cons line rest ih =>
    simp only [takeBody]
    split
    · simp
    · exact Nat.le_succ_of_le ih

/-- The rest after markers is no longer than what there was. -/
theorem length_takeMarkers_le (lines : List (List Char)) :
    (takeMarkers lines).2.length ≤ lines.length := by
  fun_induction takeMarkers lines with
  | case1 blank line rest marker hblank hmarker taken ih =>
    exact Nat.le_add_right_of_le (Nat.le_add_right_of_le ih)
  | case2 => simp
  | case3 => simp

/-- The nodes with a line of text before them; it is put together with text at their front. -/
def withText (line : List Char) : List Node → List Node
  | .text raw :: nodes => .text (line ++ raw) :: nodes
  | nodes => .text line :: nodes

/-- The nodes of some lines, the first of which stands on line `number`. -/
def nodesOf (number : Nat) : List (List Char) → List Node
  | [] => []
  | line :: rest =>
    match Fence.open? (Text.dropLineEnd line) with
    | none => withText line (nodesOf (number + 1) rest)
    | some fence =>
      let taken := takeBody fence rest
      let block : CodeBlock := ⟨number, fence, line, taken.1, taken.2.1⟩
      let marked := if block.isClosed then takeMarkers taken.2.2 else ([], taken.2.2)
      let passed := (line :: rest).length - marked.2.length
      .code block :: marked.1 ++ nodesOf (number + passed) marked.2
termination_by lines => lines.length
decreasing_by
  · simp
  · have hbody := length_takeBody_le fence rest
    have hmarkers := length_takeMarkers_le (takeBody fence rest).2.2
    simp only [List.length_cons]
    split
    · omega
    · simp only
      omega

/-- The document that a text is. -/
def parse (source : String) : Document :=
  ⟨nodesOf 1 (Text.lines source.toList)⟩

end Doctest.Document
