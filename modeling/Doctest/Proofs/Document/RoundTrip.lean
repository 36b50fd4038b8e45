import Doctest.Proofs.Document.Reading

/-!
# Reading and rendering are inverse

Every text is read to a well-formed document that is rendered to the text again, and every
well-formed document is read again from what it is rendered to.
-/

namespace Doctest.Document

/-- What some lines are read to: nodes that have these lines, arranged and numbered as they are
read. -/
structure ReadsTo (marks : Bool) (number : Nat) (ls : List (List Char)) (nodes : List Node) :
    Prop where
  lines : nodes.flatMap Node.lines = ls
  arranged : Arranged marks nodes
  numbered : Numbered number nodes

/-- A line that opens no fence is put before the nodes after it as text. -/
theorem ReadsTo.withText {marks : Bool} {number : Nat} {line : List Char}
    {rest : List (List Char)} {nodes : List Node} (hrest : ReadsTo false (number + 1) rest nodes)
    (hlines : Text.AreLines (line :: rest))
    (hopen : Fence.open? (Text.dropLineEnd line) = none)
    (hmarker : marks = true → markerAhead? (line :: rest) = none) :
    ReadsTo marks number (line :: rest) (withText line nodes) := by
  obtain ⟨hline, hend, -⟩ := Text.areLines_cons.mp hlines
  obtain ⟨hnodes, harranged, hnumbered⟩ := hrest
  have halone : Text.lines line = [line] := Text.lines_of_isLine hline
  cases nodes with
  | nil =>
    obtain rfl : [] = rest := hnodes
    refine ⟨by simp [Document.withText, halone], ?_,
      by simp [Document.withText, Numbered, Node.code?]⟩
    simp [Document.withText, Arranged, halone, hline.1, hopen]
  | cons node nodes =>
    cases node with
    | marker marker raw => simp [Arranged] at harranged
    | code block =>
      refine ⟨?_, ?_, ?_⟩
      · rw [Document.withText, List.flatMap_cons, hnodes, Node.lines_text, halone]
        · rfl
        · simp
      · simpa [Document.withText, Arranged, halone, hline.1, hopen] using harranged
      · simpa [Document.withText, Numbered, Node.code?, halone] using hnumbered
    | text raw =>
      obtain ⟨hne, hopens, -, hnext, hafter⟩ := harranged
      have hfirst : Text.lines (line ++ raw) = line :: Text.lines raw := by
        refine Text.lines_append_of_isTerminated hline (hend ?_) raw
        rintro rfl
        simp [hne] at hnodes
      have hahead (hmarks : marks = true) : markerAhead? (line :: Text.lines raw) = none := by
        have hall := hmarker hmarks
        rw [← hnodes] at hall
        exact markerAhead?_of_append hall
      refine ⟨?_, ?_, ?_⟩
      · rw [Document.withText, List.flatMap_cons, Node.lines_text, hfirst, ← hnodes]
        rfl
      · rw [Document.withText, Arranged, hfirst]
        exact ⟨by simp [hline.1], by simpa [hopen] using hopens, hahead, hnext, hafter⟩
      · have hnumber : number + (line :: Text.lines raw).length =
            number + 1 + (Text.lines raw).length := by
          rw [List.length_cons]
          omega
        rw [Document.withText, Numbered, Node.lines_text, hfirst, hnumber]
        exact ⟨by simp [Node.code?], hnumbered.2⟩

/-- A marker comes before the nodes after it. -/
theorem ReadsTo.marker {number : Nat} {blank line : List Char} {rest : List (List Char)}
    {nodes : List Node} {marker : Marker} (hrest : ReadsTo true (number + 2) rest nodes)
    (hlines : Text.AreLines (blank :: line :: rest))
    (hmarker : markerAhead? (blank :: line :: rest) = some marker) :
    ReadsTo true number (blank :: line :: rest) (.marker marker (blank ++ line) :: nodes) := by
  have hraw := hlines.lines_append
  obtain ⟨hnodes, harranged, hnumbered⟩ := hrest
  refine ⟨?_, ?_, ?_⟩
  · rw [List.flatMap_cons, Node.lines_marker, hraw, hnodes]
    rfl
  · exact ⟨rfl, by simp [hraw], by rw [hraw]; exact hmarker, harranged⟩
  · rw [Numbered, Node.lines_marker, hraw]
    exact ⟨by simp [Node.code?], hnumbered⟩

/-- A block comes before the nodes after it. -/
theorem ReadsTo.code {block : CodeBlock} {rest : List (List Char)} {nodes : List Node}
    (marks : Bool) (hrest : ReadsTo block.isClosed (block.line + block.lines.length) rest nodes)
    (hblock : block.WellFormed) (hlast : block.isClosed = true ∨ nodes = []) :
    ReadsTo marks block.line (block.lines ++ rest) (.code block :: nodes) := by
  obtain ⟨hnodes, harranged, hnumbered⟩ := hrest
  refine ⟨?_, ⟨hblock, hlast, harranged⟩, ⟨by simp [Node.code?], hnumbered⟩⟩
  rw [List.flatMap_cons, Node.lines_code, hnodes]

/-- The block that an opening line begins. -/
theorem wellFormed_takeBody {fence : Fence} {opening : List Char} (number : Nat)
    (rest : List (List Char)) (hopen : Fence.open? (Text.dropLineEnd opening) = some fence) :
    CodeBlock.WellFormed
      ⟨number, fence, opening, (takeBody fence rest).1, (takeBody fence rest).2.1⟩ where
  opens := hopen
  staysOpen _ := isClosedBy_of_mem_takeBody
  closes _ := isClosedBy_of_takeBody_eq_some

/-- Nothing is read after a block that is not closed. -/
theorem isSome_or_nodesAfter_takeBody (fence : Fence) (rest : List (List Char)) (marks : Bool)
    (number : Nat) : (takeBody fence rest).2.1.isSome = true ∨
      nodesAfter marks number (takeBody fence rest).2.2 = [] := by
  cases hclosing : (takeBody fence rest).2.1 with
  | none =>
    right
    rw [takeBody_rest_of_eq_none hclosing, nodesAfter_nil]
  | some closing => exact .inl rfl

/-- A line that opens a fence is read to a block, if the lines after the block are read to nodes. -/
theorem readsTo_of_open? {fence : Fence} {opening : List Char} {rest : List (List Char)}
    (marks : Bool) (number : Nat) (hopen : Fence.open? (Text.dropLineEnd opening) = some fence)
    (hafter : ∀ marks number, ReadsTo marks number (takeBody fence rest).2.2
      (nodesAfter marks number (takeBody fence rest).2.2)) :
    ReadsTo marks number (opening :: rest) (nodesOf number (opening :: rest)) := by
  have hread := ReadsTo.code marks (hafter _ _) (wellFormed_takeBody number rest hopen)
    (isSome_or_nodesAfter_takeBody ..)
  rw [CodeBlock.lines, List.cons_append, List.cons_append, List.append_assoc,
    append_takeBody] at hread
  rw [nodesOf_code number rest hopen]
  exact hread

/-- The lines after a body are lines of a text. -/
theorem areLines_takeBody (fence : Fence) {rest : List (List Char)} (hrest : Text.AreLines rest) :
    Text.AreLines (takeBody fence rest).2.2 := by
  rw [← append_takeBody fence rest, Text.areLines_append, Text.areLines_append] at hrest
  exact hrest.2.2.2.2

/-- The lines of a text are read to nodes that have these lines and stand as they are read. The
induction is on the number of lines, since a block or a marker takes several at once. -/
theorem readsTo_nodesAfter (marks : Bool) (number : Nat) {ls : List (List Char)}
    (hlines : Text.AreLines ls) : ReadsTo marks number ls (nodesAfter marks number ls) := by
  induction hlength : ls.length using Nat.strongRecOn generalizing marks number ls with
  | ind length ih =>
    subst hlength
    by_cases hahead : marks = true → markerAhead? ls = none
    case neg =>
      obtain ⟨rfl, hsome⟩ := Classical.not_imp.mp hahead
      obtain ⟨marker, hmarker⟩ := Option.ne_none_iff_exists'.mp hsome
      obtain ⟨blank, line, rest, rfl, -, -⟩ := markerAhead?_eq_some.mp hmarker
      obtain ⟨-, -, htail⟩ := Text.areLines_cons.mp hlines
      obtain ⟨-, -, hrest⟩ := Text.areLines_cons.mp htail
      have hshorter : rest.length < (blank :: line :: rest).length := by
        simp only [List.length_cons]
        omega
      rw [nodesAfter_marker number hmarker]
      exact (ih _ hshorter true (number + 2) hrest rfl).marker hlines hmarker
    case pos =>
      rw [nodesAfter_of_eq_none number hahead]
      cases ls with
      | nil => exact ⟨by simp [nodesOf], by simp [nodesOf, Arranged], by simp [nodesOf, Numbered]⟩
      | cons line rest =>
        obtain ⟨-, -, hrest⟩ := Text.areLines_cons.mp hlines
        cases hopen : Fence.open? (Text.dropLineEnd line) with
        | none =>
          rw [nodesOf_text number rest hopen]
          exact (ih _ (by simp) false (number + 1) hrest rfl).withText hlines hopen hahead
        | some fence =>
          have hshorter : (takeBody fence rest).2.2.length < (line :: rest).length :=
            Nat.lt_succ_of_le (length_takeBody_le fence rest)
          exact readsTo_of_open? marks number hopen fun marks number =>
            ih _ hshorter marks number (areLines_takeBody fence hrest) rfl

/-- A well-formed marker is read from its lines. -/
theorem nodesAfter_append_marker {marker : Marker} {raw : List Char} (number : Nat)
    (rest : List (List Char)) (hlength : (Text.lines raw).length = 2)
    (hmarker : markerAhead? (Text.lines raw) = some marker) :
    nodesAfter true number (Text.lines raw ++ rest) =
      .marker marker raw :: nodesAfter true (number + 2) rest := by
  obtain ⟨blank, line, more, hraw, -, -⟩ := markerAhead?_eq_some.mp hmarker
  obtain rfl : more = [] := by simpa [hraw] using hlength
  have hflat : blank ++ line = raw := by
    rw [← Text.flatten_lines raw, hraw]
    simp
  have hahead : markerAhead? (blank :: line :: rest) = some marker := by
    rw [← hmarker, hraw]
    rfl
  rw [hraw, List.cons_append, List.cons_append, List.nil_append, nodesAfter_marker number hahead,
    hflat]

/-- A well-formed block is read from its lines. -/
theorem nodesAfter_append_code {block : CodeBlock} (marks : Bool) {rest : List (List Char)}
    (hblock : block.WellFormed) (hrest : block.isClosed = true ∨ rest = []) :
    nodesAfter marks block.line (block.lines ++ rest) =
      .code block :: nodesAfter block.isClosed (block.line + block.lines.length) rest := by
  have hahead : markerAhead? (block.lines ++ rest) = none :=
    markerAhead?_append_of_open? markerAhead?_nil hblock.opens
  rw [nodesAfter_of_eq_none _ fun _ => hahead, CodeBlock.lines, List.cons_append,
    List.cons_append, List.append_assoc, nodesOf_code _ _ hblock.opens,
    takeBody_append hblock.staysOpen hblock.closes hrest]
  rfl

/-- A text that opens no fence is read from its lines. -/
theorem nodesAfter_append_text {marks : Bool} {raw : List Char} (number : Nat)
    {rest : List (List Char)} (hne : raw ≠ [])
    (hopen : ∀ line ∈ Text.lines raw, Fence.open? (Text.dropLineEnd line) = none)
    (hmarker : marks = true → markerAhead? (Text.lines raw ++ rest) = none)
    (hrest : ∀ next, (nodesAfter false (number + (Text.lines raw).length) rest).head? ≠
      some (.text next)) :
    nodesAfter marks number (Text.lines raw ++ rest) =
      .text raw :: nodesAfter false (number + (Text.lines raw).length) rest := by
  rw [nodesAfter_of_eq_none number hmarker,
    nodesOf_append_text number (by simpa using hne) hopen hrest, Text.flatten_lines]
  rfl

/-- A text makes no marker with what follows it: that is the end, or a block. -/
theorem Arranged.markerAhead?_append {marks : Bool} {raw : List Char} {nodes : List Node}
    {ls : List (List Char)} (harranged : Arranged marks (.text raw :: nodes))
    (hls : ls = [] ∨ marksAfter marks (.text raw :: nodes) = true) (hmarks : marks = true) :
    markerAhead? (Text.lines raw ++ (nodes.flatMap Node.lines ++ ls)) = none := by
  obtain ⟨-, -, hmarker, hnext, hrest⟩ := harranged
  cases nodes with
  | nil =>
    obtain rfl : ls = [] := by simpa [marksAfter] using hls
    simpa using hmarker hmarks
  | cons next nodes =>
    cases next with
    | text next => exact absurd rfl (hnext next)
    | marker marker raw => simp [Arranged] at hrest
    | code block => exact markerAhead?_append_of_open? (hmarker hmarks) hrest.1.opens

/-- Reading goes on after nodes as if it had begun there, if no more text could be added to the
last of them. -/
theorem nodesAfter_append {marks : Bool} {number : Nat} {nodes : List Node}
    {ls : List (List Char)} (harranged : Arranged marks nodes) (hnumbered : Numbered number nodes)
    (hls : ls = [] ∨ marksAfter marks nodes = true) :
    nodesAfter marks number (nodes.flatMap Node.lines ++ ls) =
      nodes ++ nodesAfter (marksAfter marks nodes)
        (number + (nodes.flatMap Node.lines).length) ls := by
  induction nodes generalizing marks number with
  | nil => rfl
  | cons node nodes ih =>
    obtain ⟨hnumber, hnumbered⟩ := hnumbered
    rw [List.flatMap_cons, List.append_assoc, List.length_append, ← Nat.add_assoc]
    cases node with
    | marker marker raw =>
      obtain ⟨rfl, hlength, hmarker, hrest⟩ := harranged
      rw [Node.lines_marker, hlength] at hnumbered
      rw [Node.lines_marker, nodesAfter_append_marker number _ hlength hmarker,
        ih hrest hnumbered hls, hlength]
      rfl
    | code block =>
      obtain ⟨hblock, hlast, hrest⟩ := harranged
      obtain rfl : block.line = number := hnumber block rfl
      have hend : block.isClosed = true ∨ nodes.flatMap Node.lines ++ ls = [] := by
        rcases hlast with hclosed | rfl
        · exact .inl hclosed
        · exact hls.symm
      rw [Node.lines_code] at hnumbered ⊢
      rw [nodesAfter_append_code marks hblock hend, ih hrest hnumbered hls]
      rfl
    | text raw =>
      have hahead := harranged.markerAhead?_append hls
      obtain ⟨hne, hopen, -, hnext, hrest⟩ := harranged
      have hread := ih hrest hnumbered hls
      have hhead (next : List Char) : (nodesAfter false (number + (Text.lines raw).length)
          (nodes.flatMap Node.lines ++ ls)).head? ≠ some (.text next) := by
        rw [Node.lines_text] at hread
        rw [hread]
        cases nodes with
        | nil =>
          obtain rfl : ls = [] := by simpa [marksAfter] using hls
          simp [nodesAfter_nil]
        | cons node nodes => simpa using hnext next
      rw [Node.lines_text] at hread ⊢
      rw [nodesAfter_append_text number hne hopen hahead hhead, hread]
      rfl

/-- What a text is read to has the lines of the text. -/
theorem lines_parse (source : String) : (parse source).lines = Text.lines source.toList :=
  (readsTo_nodesAfter false 1 (Text.areLines_lines source.toList)).lines

/-- A text is read to a well-formed document. -/
theorem wellFormed_parse (source : String) : (parse source).WellFormed where
  lines := by
    rw [lines_parse]
    exact Text.areLines_lines source.toList
  arranged := (readsTo_nodesAfter false 1 (Text.areLines_lines source.toList)).arranged
  numbered := (readsTo_nodesAfter false 1 (Text.areLines_lines source.toList)).numbered

/-- What a text is read to is rendered to the text. -/
theorem render_parse (source : String) : (parse source).render = source := by
  apply String.toList_injective
  rw [toList_render, lines_parse, Text.flatten_lines]

/-- A well-formed document is read again from what it is rendered to. -/
theorem parse_render {doc : Document} (hdoc : doc.WellFormed) : parse doc.render = doc := by
  have hread : nodesAfter false 1 (doc.nodes.flatMap Node.lines ++ []) = _ :=
    nodesAfter_append hdoc.arranged hdoc.numbered (.inl rfl)
  rw [List.append_nil, nodesAfter_nil, List.append_nil] at hread
  rw [parse, lines_render hdoc.lines]
  exact congrArg Document.mk hread

/-- **Round trip.** Reading and rendering are inverse to each other between all texts and the
well-formed documents; no other document is read again from what it is rendered to. -/
theorem parse_and_render_inverse :
    (∀ source : String, (parse source).render = source ∧ (parse source).WellFormed) ∧
      ∀ doc : Document, doc.WellFormed ↔ parse doc.render = doc := by
  refine ⟨fun source => ⟨render_parse source, wellFormed_parse source⟩, fun doc => ⟨?_, ?_⟩⟩
  · exact parse_render
  · intro hread
    rw [← hread]
    exact wellFormed_parse doc.render

end Doctest.Document
