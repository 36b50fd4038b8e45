import Mathlib.Tactic.Common
import Doctest.Proofs.Document.WellFormed

/-!
# Reading lines to nodes

What is read depends on whether a closed block or a marker comes directly before: only then a
marker can follow. `nodesAfter` reads in either case, and one equation tells for each kind of
node how it is read.
-/

namespace Doctest.Document

/-- A body, its closing line and the rest are all the lines. -/
theorem append_takeBody (fence : Fence) (ls : List (List Char)) :
    (takeBody fence ls).1 ++ ((takeBody fence ls).2.1.toList ++ (takeBody fence ls).2.2) = ls := by
  induction ls with
  | nil => rfl
  | cons line ls ih =>
    simp only [takeBody]
    split
    · rfl
    · simpa using ih

/-- No line of a body closes the fence. -/
theorem isClosedBy_of_mem_takeBody {fence : Fence} {ls : List (List Char)} {line : List Char}
    (hmem : line ∈ (takeBody fence ls).1) : fence.isClosedBy (Text.dropLineEnd line) = false := by
  induction ls with
  | nil => simp [takeBody] at hmem
  | cons first ls ih =>
    simp only [takeBody] at hmem
    split at hmem
    case isTrue => simp at hmem
    case isFalse hfirst =>
      rcases List.mem_cons.mp hmem with rfl | hmem
      · simpa using hfirst
      · exact ih hmem

/-- The line after a body closes the fence. -/
theorem isClosedBy_of_takeBody_eq_some {fence : Fence} {ls : List (List Char)} {line : List Char}
    (h : (takeBody fence ls).2.1 = some line) :
    fence.isClosedBy (Text.dropLineEnd line) = true := by
  induction ls with
  | nil => simp [takeBody] at h
  | cons first ls ih =>
    simp only [takeBody] at h
    split at h
    case isTrue hfirst =>
      cases h
      exact hfirst
    case isFalse => exact ih h

/-- A body that is not closed takes all the lines. -/
theorem takeBody_rest_of_eq_none {fence : Fence} {ls : List (List Char)}
    (h : (takeBody fence ls).2.1 = none) : (takeBody fence ls).2.2 = [] := by
  induction ls with
  | nil => rfl
  | cons first ls ih =>
    simp only [takeBody] at h ⊢
    split at h
    case isTrue => cases h
    case isFalse hfirst =>
      rw [if_neg hfirst]
      exact ih h

/-- The body of a well-formed block is taken as it is. -/
theorem takeBody_append {fence : Fence} {body rest : List (List Char)}
    {closing : Option (List Char)}
    (hbody : ∀ line ∈ body, fence.isClosedBy (Text.dropLineEnd line) = false)
    (hclosing : ∀ line ∈ closing, fence.isClosedBy (Text.dropLineEnd line) = true)
    (hrest : closing.isSome = true ∨ rest = []) :
    takeBody fence (body ++ (closing.toList ++ rest)) = (body, closing, rest) := by
  induction body with
  | nil =>
    cases closing with
    | none =>
      obtain rfl : rest = [] := by simpa using hrest
      rfl
    | some line => simp [takeBody, hclosing line rfl]
  | cons line body ih =>
    rw [List.forall_mem_cons] at hbody
    simp [takeBody, hbody.1, ih hbody.2]

/-- Nothing is taken where no marker is ahead. -/
theorem takeMarkers_of_eq_none {ls : List (List Char)} (h : markerAhead? ls = none) :
    takeMarkers ls = ([], ls) := by
  match ls with
  | [] => rfl
  | [_] => rfl
  | blank :: line :: rest =>
    rw [takeMarkers]
    split
    case h_1 marker hblank hline => simp [markerAhead?, hblank, hline] at h
    case h_2 => rfl

/-- A marker that is ahead is taken. -/
theorem takeMarkers_of_eq_some {blank line : List Char} {rest : List (List Char)} {marker : Marker}
    (h : markerAhead? (blank :: line :: rest) = some marker) :
    takeMarkers (blank :: line :: rest) =
      (.marker marker (blank ++ line) :: (takeMarkers rest).1, (takeMarkers rest).2) := by
  simp only [markerAhead?] at h
  split_ifs at h with hblank
  simp [takeMarkers, hblank, h]

/-- The nodes of some lines, the first of which stands on line `number`. `marks` tells whether a
closed block or a marker comes directly before them. -/
def nodesAfter (marks : Bool) (number : Nat) (ls : List (List Char)) : List Node :=
  if marks then
    let taken := takeMarkers ls
    taken.1 ++ nodesOf (number + (ls.length - taken.2.length)) taken.2
  else nodesOf number ls

/-- The mode in which the lines after some nodes are read. -/
def marksAfter : Bool → List Node → Bool
  | marks, [] => marks
  | _, .text _ :: rest => marksAfter false rest
  | _, .code block :: rest => marksAfter block.isClosed rest
  | _, .marker .. :: rest => marksAfter true rest

theorem nodesAfter_nil (marks : Bool) (number : Nat) : nodesAfter marks number [] = [] := by
  cases marks <;> simp [nodesAfter, takeMarkers, nodesOf]

/-- Where no marker is ahead, it does not matter what comes before. -/
theorem nodesAfter_of_eq_none {marks : Bool} {ls : List (List Char)} (number : Nat)
    (h : marks = true → markerAhead? ls = none) :
    nodesAfter marks number ls = nodesOf number ls := by
  cases marks with
  | false => rfl
  | true => simp [nodesAfter, takeMarkers_of_eq_none (h rfl)]

/-- A marker is read after a closed block or a marker. -/
theorem nodesAfter_marker {blank line : List Char} {rest : List (List Char)} {marker : Marker}
    (number : Nat) (h : markerAhead? (blank :: line :: rest) = some marker) :
    nodesAfter true number (blank :: line :: rest) =
      .marker marker (blank ++ line) :: nodesAfter true (number + 2) rest := by
  have hle := length_takeMarkers_le rest
  have hnumber : number + (rest.length + 1 + 1 - (takeMarkers rest).2.length) =
      number + 2 + (rest.length - (takeMarkers rest).2.length) := by omega
  simp [nodesAfter, takeMarkers_of_eq_some h, hnumber]

/-- A line that opens no fence is put before the text that follows it. -/
theorem nodesOf_text {line : List Char} (number : Nat) (rest : List (List Char))
    (hopen : Fence.open? (Text.dropLineEnd line) = none) :
    nodesOf number (line :: rest) = withText line (nodesOf (number + 1) rest) := by
  rw [nodesOf]
  split
  case h_1 => rfl
  case h_2 fence hfence => simp [hopen] at hfence

/-- A line that opens a fence begins a block. -/
theorem nodesOf_code {line : List Char} {fence : Fence} (number : Nat) (rest : List (List Char))
    (hopen : Fence.open? (Text.dropLineEnd line) = some fence) :
    nodesOf number (line :: rest) =
      let taken := takeBody fence rest
      let block : CodeBlock := ⟨number, fence, line, taken.1, taken.2.1⟩
      .code block :: nodesAfter block.isClosed (number + block.lines.length) taken.2.2 := by
  rw [nodesOf]
  split
  case h_1 hnone => simp [hopen] at hnone
  case h_2 found hfound =>
    obtain rfl : fence = found := Option.some.inj (hopen.symm.trans hfound)
    have hlength := congrArg List.length (append_takeBody fence rest)
    simp only [List.length_append] at hlength
    dsimp only
    cases hclosing : (takeBody fence rest).2.1 with
    | none =>
      simp [CodeBlock.isClosed, takeBody_rest_of_eq_none hclosing, nodesAfter, nodesOf]
    | some closing =>
      have hle := length_takeMarkers_le (takeBody fence rest).2.2
      simp only [hclosing, Option.toList_some, List.length_singleton] at hlength
      simp only [CodeBlock.isClosed, Option.isSome_some, if_true, nodesAfter,
        CodeBlock.lines, Option.toList_some, List.length_append, List.length_cons,
        List.length_nil, List.cons_append]
      congr 3
      omega

/-- Lines that open no fence are read to one text, if what follows is not read to text as well. -/
theorem nodesOf_append_text {ls rest : List (List Char)} (number : Nat) (hne : ls ≠ [])
    (hopen : ∀ line ∈ ls, Fence.open? (Text.dropLineEnd line) = none)
    (hrest : ∀ next, (nodesOf (number + ls.length) rest).head? ≠ some (.text next)) :
    nodesOf number (ls ++ rest) = .text ls.flatten :: nodesOf (number + ls.length) rest := by
  induction ls generalizing number with
  | nil => exact absurd rfl hne
  | cons line ls ih =>
    rw [List.forall_mem_cons] at hopen
    rw [List.cons_append, nodesOf_text _ _ hopen.1]
    have hnumber : number + (line :: ls).length = number + 1 + ls.length := by
      simp only [List.length_cons]
      omega
    rw [hnumber] at hrest ⊢
    by_cases hnil : ls = []
    · subst hnil
      cases hnodes : nodesOf (number + 1) rest with
      | nil => simp [withText, hnodes]
      | cons node nodes =>
        cases node with
        | text next => exact absurd (by simp [hnodes]) (hrest next)
        | code block => simp [withText, hnodes]
        | marker marker raw => simp [withText, hnodes]
    · rw [ih _ hnil hopen.2 hrest]
      rfl

end Doctest.Document
