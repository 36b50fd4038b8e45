import Doctest.Proofs.Document.WellFormed

/-!
# Lines of markers

Markers of both kinds stand on one line and are read from it again. A closed block stays what it is
when its last line is terminated, so that a marker can follow.
-/

namespace Doctest

namespace Text

/-- What ends a line. -/
def IsLineEnd (newline : List Char) : Prop :=
  newline = ['\n'] ∨ newline = ['\r', '\n']

namespace IsLineEnd

variable {newline s : List Char}

theorem isTerminated_append (h : IsLineEnd newline) (s : List Char) :
    IsTerminated (s ++ newline) := by
  rcases h with rfl | rfl <;> simp [IsTerminated]

theorem isLine_append (h : IsLineEnd newline) (hs : '\n' ∉ s) : IsLine (s ++ newline) := by
  rcases h with rfl | rfl
  · simp [IsLine, hs]
  · have hdrop : (s ++ ['\r', '\n']).dropLast = s ++ ['\r'] := by
      rw [List.dropLast_append_of_ne_nil (by simp)]
      rfl
    simp [IsLine, hdrop, hs]

theorem isLine (h : IsLineEnd newline) : IsLine newline := by
  rcases h with rfl | rfl <;> simp [IsLine]

theorem isTerminated (h : IsLineEnd newline) : IsTerminated newline := by
  rcases h with rfl | rfl <;> rfl

@[simp] theorem dropLineEnd_eq (h : IsLineEnd newline) : dropLineEnd newline = [] := by
  rcases h with rfl | rfl <;> rfl

/-- A terminator alone is a blank line. -/
theorem allBlank_dropLineEnd (h : IsLineEnd newline) : allBlank (dropLineEnd newline) = true := by
  rw [h.dropLineEnd_eq]
  rfl

/-- A terminator goes, and nothing else if there is no carriage return before it. -/
theorem dropLineEnd_append (h : IsLineEnd newline) (hs : '\r' ∉ s) :
    dropLineEnd (s ++ newline) = s := by
  rcases h with rfl | rfl
  · rw [dropLineEnd_append_feed, dropReturn_of_getLast?]
    exact fun hlast => hs (List.mem_of_getLast? hlast)
  · exact dropLineEnd_append_return_feed s

/-- A line with a terminator comes first. -/
theorem lines_append (h : IsLineEnd newline) (hs : '\n' ∉ s) (t : List Char) :
    lines (s ++ newline ++ t) = (s ++ newline) :: lines t :=
  lines_append_of_isTerminated (h.isLine_append hs) (h.isTerminated_append s) t

/-- A blank line and a line after it are two lines. -/
theorem lines_blank_append (h : IsLineEnd newline) (hs : '\n' ∉ s) :
    lines (newline ++ (s ++ newline)) = [newline, s ++ newline] := by
  rw [lines_append_of_isTerminated h.isLine h.isTerminated, lines_of_isLine (h.isLine_append hs)]

end IsLineEnd

end Text

namespace Marker

/-- A marker whose line is read to it. -/
structure WellFormed (marker : Marker) : Prop where
  noFeed : '\n' ∉ marker.text
  noReturn : '\r' ∉ marker.text
  reads : ofLine? marker.text = some marker

theorem wellFormed_pass : pass.WellFormed := by
  constructor <;> decide

/-- A text on one line has no line breaks. -/
theorem not_mem_oneLine {c : Char} (hc : c = '\n' ∨ c = '\r') (s : List Char) :
    c ∉ oneLine s := by
  fun_induction oneLine s with
  | case1 => simp
  | case2 s ih => rcases hc with rfl | rfl <;> simpa using ih
  | case3 d s _ ih =>
    rw [List.mem_cons, not_or]
    refine ⟨?_, ih⟩
    rcases hc with rfl | rfl <;> split_ifs with hd <;> grind

/-- A code span has no characters but spaces and backticks around its content. -/
theorem not_mem_codeSpan {c : Char} {content : List Char} (hspace : c ≠ ' ')
    (hbacktick : c ≠ Fence.backtick) (hc : c ∉ content) : c ∉ codeSpan content := by
  unfold codeSpan
  dsimp only
  split_ifs <;> simp [hspace, hbacktick, hc]

/-- A failure is read from the line of its marker, whatever its message. -/
theorem wellFormed_fail (message : String) : (fail message).WellFormed := by
  have hbreak {c : Char} (hc : c = '\n' ∨ c = '\r') : c ∉ (fail message).text := by
    have hcontent : c ∉ "Error: ".toList ++ oneLine message.toList := by
      rw [List.mem_append, not_or]
      refine ⟨?_, not_mem_oneLine hc _⟩
      rcases hc with rfl | rfl <;> decide
    rw [fail, List.mem_append, not_or]
    rcases hc with rfl | rfl <;>
      exact ⟨by decide, not_mem_codeSpan (by decide) (by decide) hcontent⟩
  exact ⟨hbreak (.inl rfl), hbreak (.inr rfl), rfl⟩

/-- Whether a text begins as the lines of markers do. -/
def Opens (s : List Char) : Prop :=
  opening .pass <+: s ∨ opening .fail <+: s

instance (s : List Char) : Decidable (Opens s) :=
  inferInstanceAs (Decidable (_ ∨ _))

/-- A line is that of a marker exactly if it begins so. -/
theorem ofLine?_eq_none_iff {line : List Char} : ofLine? line = none ↔ ¬ Opens line := by
  unfold ofLine? Opens
  rw [← List.isPrefixOf_iff_prefix, ← List.isPrefixOf_iff_prefix]
  split_ifs with hpass hfail
  · simp [hpass]
  · simp [hfail]
  · simp [hpass, hfail]

/-- No line break is in how a marker begins. -/
theorem ne_of_mem_opening {kind : MarkerKind} : ∀ c ∈ opening kind, c ≠ '\n' ∧ c ≠ '\r' := by
  cases kind <;> simp [opening]

/-- A text begins as a marker does exactly if its first line does. -/
theorem opens_dropLineEnd_iff {s line : List Char} {rest : List (List Char)}
    (hlines : Text.lines s = line :: rest) : Opens (Text.dropLineEnd line) ↔ Opens s :=
  or_congr (Text.prefix_dropLineEnd_iff ne_of_mem_opening hlines)
    (Text.prefix_dropLineEnd_iff ne_of_mem_opening hlines)

/-- A blank text does not begin as a marker does. -/
theorem not_opens_of_allBlank {s : List Char} (hblank : Text.allBlank s = true) : ¬ Opens s := by
  have hfirst {c : Char} {p : List Char} (hc : Text.isBlank c = false) : ¬ c :: p <+: s := by
    intro hprefix
    have hmem : c ∈ s := hprefix.subset (by simp)
    rw [List.all_eq_true.mp hblank c hmem] at hc
    cases hc
  rintro (hpass | hfail)
  · exact hfirst (by decide) hpass
  · exact hfirst (by decide) hfail

end Marker

/-- A blank line and the line of a marker are read to the marker. -/
theorem Document.markerAhead?_of_wellFormed {newline : List Char} {marker : Marker}
    (hnewline : Text.IsLineEnd newline) (hmarker : marker.WellFormed)
    (rest : List (List Char)) :
    markerAhead? (newline :: (marker.text ++ newline) :: rest) = some marker := by
  rw [markerAhead?, if_pos hnewline.allBlank_dropLineEnd,
    hnewline.dropLineEnd_append hmarker.noReturn, hmarker.reads]

/-- A carriage return at the end of a line does not keep it from closing a fence. -/
theorem Fence.isClosedBy_append_return {fence : Fence} {line : List Char}
    (hmark : fence.mark ≠ '\r') :
    fence.isClosedBy (line ++ ['\r']) = fence.isClosedBy line := by
  have hleading (c : Char) (hc : c ≠ '\r') (s : List Char) :
      leading c (s ++ ['\r']) = leading c s := by
    induction s with
    | nil => simp [leading, Ne.symm hc]
    | cons d s ih =>
      unfold leading at ih ⊢
      rw [List.cons_append, List.takeWhile_cons, List.takeWhile_cons]
      split_ifs
      · rw [List.length_cons, List.length_cons, ih]
      · rfl
  have hdrop (c : Char) (s : List Char) :
      (s ++ ['\r']).drop (leading c s) = s.drop (leading c s) ++ ['\r'] :=
    List.drop_append_of_le_length (List.takeWhile_prefix _).length_le
  have hblank : Text.isBlank '\r' = true := by decide
  unfold isClosedBy
  dsimp only
  rw [hleading ' ' (by decide), hdrop, hleading _ hmark, hdrop]
  simp [Text.allBlank, hblank]

/-- Terminating a line does not change whether it closes a fence. -/
theorem Fence.isClosedBy_append_newline {fence : Fence} {line newline : List Char}
    (hmark : fence.mark ≠ '\r') (hnewline : Text.IsLineEnd newline)
    (hend : ¬ Text.IsTerminated line) :
    fence.isClosedBy (Text.dropLineEnd (line ++ newline)) =
      fence.isClosedBy (Text.dropLineEnd line) := by
  rw [Text.dropLineEnd_of_not_isTerminated hend]
  rcases hnewline with rfl | rfl
  · rw [Text.dropLineEnd_append_feed]
  · rw [Text.dropLineEnd_append_return_feed]
    rcases Text.dropReturn_eq_or line with hline | hline
    · rw [← hline]
    · conv_lhs => rw [hline]
      exact isClosedBy_append_return hmark

namespace CodeBlock

theorem isLineEnd_newline (block : CodeBlock) : Text.IsLineEnd block.newline := by
  unfold newline
  split_ifs
  · exact .inr rfl
  · exact .inl rfl

/-- The block with its closing line terminated. -/
def ended (block : CodeBlock) : CodeBlock :=
  { block with closing := block.closing.map (· ++ if block.endsLine then [] else block.newline) }

@[simp] theorem line_ended (block : CodeBlock) : block.ended.line = block.line := rfl

@[simp] theorem fence_ended (block : CodeBlock) : block.ended.fence = block.fence := rfl

@[simp] theorem opening_ended (block : CodeBlock) : block.ended.opening = block.opening := rfl

@[simp] theorem value_ended (block : CodeBlock) : block.ended.value = block.value := rfl

@[simp] theorem newline_ended (block : CodeBlock) : block.ended.newline = block.newline := rfl

@[simp] theorem isClosed_ended (block : CodeBlock) : block.ended.isClosed = block.isClosed :=
  Option.isSome_map

/-- The characters of a closed block with its closing line terminated. -/
theorem raw_ended {block : CodeBlock} (hclosed : block.isClosed = true) :
    block.ended.raw = block.raw ++ if block.endsLine then [] else block.newline := by
  obtain ⟨closing, hclosing⟩ := Option.isSome_iff_exists.mp hclosed
  simp [raw, ended, hclosing]

/-- A closed block ends its last line if its closing line is terminated. -/
theorem endsLine_iff {block : CodeBlock} {closing : List Char}
    (hclosing : block.closing = some closing) :
    block.endsLine = true ↔ Text.IsTerminated closing := by
  simp [endsLine, lastLine, hclosing, Text.IsTerminated]

theorem endsLine_ended {block : CodeBlock} (hclosed : block.isClosed = true) :
    block.ended.endsLine = true := by
  obtain ⟨closing, hclosing⟩ := Option.isSome_iff_exists.mp hclosed
  have hended : block.ended.closing =
      some (closing ++ if block.endsLine then [] else block.newline) := by
    simp [ended, hclosing]
  rw [endsLine_iff hended]
  by_cases hend : block.endsLine = true
  · rw [if_pos hend, List.append_nil]
    exact (endsLine_iff hclosing).mp hend
  · rw [if_neg hend]
    exact block.isLineEnd_newline.isTerminated_append closing

theorem raw_ended_ended {block : CodeBlock} (hclosed : block.isClosed = true) :
    block.ended.ended.raw = block.ended.raw := by
  rw [raw_ended (block.isClosed_ended.trans hclosed), endsLine_ended hclosed, if_pos rfl,
    List.append_nil]

/-- Terminating the closing line keeps a block well formed. -/
theorem WellFormed.ended {block : CodeBlock} (hblock : block.WellFormed) :
    block.ended.WellFormed where
  opens := hblock.opens
  staysOpen := hblock.staysOpen
  closes := by
    intro line hline
    obtain ⟨closing, hclosing, rfl⟩ := Option.map_eq_some_iff.mp hline
    have hcloses := hblock.closes closing hclosing
    by_cases hend : block.endsLine = true
    · simpa [hend] using hcloses
    · have hmark : block.fence.mark ≠ '\r' := by
        rcases (Fence.mark_of_open? hblock.opens).1 with hmark | hmark <;> rw [hmark] <;> decide
      rw [endsLine_iff hclosing] at hend
      have hsame := Fence.isClosedBy_append_newline hmark block.isLineEnd_newline hend
      rw [← endsLine_iff hclosing] at hend
      rw [if_neg hend]
      exact hsame.trans hcloses

/-- The lines of a closed block with its closing line terminated are terminated lines. -/
theorem isTerminated_lines_ended {block : CodeBlock} (hclosed : block.isClosed = true)
    (hlines : Text.AreLines block.lines) :
    ∀ line ∈ block.ended.lines, Text.IsLine line ∧ Text.IsTerminated line := by
  obtain ⟨closing, hclosing⟩ := Option.isSome_iff_exists.mp hclosed
  rw [lines, hclosing, Option.toList_some, Text.areLines_append] at hlines
  obtain ⟨hfront, hterminated, hback⟩ := hlines
  have hline : Text.IsLine closing := hback.isLine closing (by simp)
  intro line hmem
  rw [lines, ended, hclosing, Option.map_some, Option.toList_some, List.mem_append,
    List.mem_singleton] at hmem
  rcases hmem with hmem | rfl
  · exact ⟨hfront.isLine line hmem, hterminated (by simp) line hmem⟩
  · by_cases hend : block.endsLine = true
    · rw [if_pos hend, List.append_nil]
      exact ⟨hline, (endsLine_iff hclosing).mp hend⟩
    · have hfeed : '\n' ∉ closing :=
        hline.not_mem_of_not_isTerminated (fun h => hend ((endsLine_iff hclosing).mpr h))
      rw [if_neg hend]
      exact ⟨block.isLineEnd_newline.isLine_append hfeed,
        block.isLineEnd_newline.isTerminated_append closing⟩

end CodeBlock

end Doctest
