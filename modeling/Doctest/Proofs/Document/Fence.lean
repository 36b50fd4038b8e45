import Mathlib.Data.List.Basic
import Doctest.Document.Marker
import Doctest.Proofs.Text.Lines

/-!
# Lines that open, close and mark

A line that opens a fence is neither blank nor the line of a marker. What a line closes does not
depend on carriage returns at its end.
-/

namespace Doctest

/-- An opening fence has one of the two characters for fences, and the line has it too. -/
theorem Fence.mark_of_open? {line : List Char} {fence : Fence} (h : open? line = some fence) :
    (fence.mark = backtick ∨ fence.mark = '~') ∧ fence.mark ∈ line := by
  unfold open? at h
  dsimp only at h
  split at h
  case h_1 => cases h
  case h_2 mark rest hrest =>
    have hmem : mark ∈ line := List.mem_of_mem_drop (hrest ▸ List.mem_cons_self)
    split_ifs at h with hindent hmark hwidth hinfo
    cases h
    exact ⟨by simpa only [ne_eq, not_and_or, not_not] using hmark, hmem⟩

/-- A line that opens a fence is not blank. -/
theorem Fence.allBlank_of_open? {line : List Char} {fence : Fence} (h : open? line = some fence) :
    Text.allBlank line = false := by
  obtain ⟨hmark, hmem⟩ := mark_of_open? h
  rw [Text.allBlank, List.all_eq_false]
  refine ⟨fence.mark, hmem, ?_⟩
  rcases hmark with hmark | hmark <;> rw [hmark] <;> decide

/-- A line that opens a fence is no marker: spaces or the fence come first in it. -/
theorem Fence.ofLine?_of_open? {line : List Char} {fence : Fence} (h : open? line = some fence) :
    Marker.ofLine? line = none := by
  cases line with
  | nil => rfl
  | cons c rest =>
    have hfirst : c = ' ' ∨ c = backtick ∨ c = '~' := by
      by_contra hc
      obtain ⟨hspace, hbacktick, htilde⟩ : c ≠ ' ' ∧ c ≠ backtick ∧ c ≠ '~' := by tauto
      simp [open?, leading, greatestIndent, hspace, hbacktick, htilde] at h
    rcases hfirst with rfl | rfl | rfl <;> rfl

end Doctest
