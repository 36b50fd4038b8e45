import Doctest.Script.Heap
import Mathlib.Logic.Relation

/-!
# Accounts of values

What can be told of a value by going through the values that stand within it. Taken for trees,
values have an account of all their parts, each of which counts wherever it stands; a value that
stands within itself has none.
-/

namespace Doctest.Script

open Relation (ReflTransGen TransGen)

/-- A way to tell something of a value: the values that stand directly within it, and what is told
of it from what is told of those. -/
structure Account (α : Type) where
  parts : Value → List Value
  around : Value → List α → α

namespace Account

variable {α : Type} (account : Account α)

/-- One value stands directly within another one. -/
def Holds (outer inner : Value) : Prop :=
  inner ∈ account.parts outer

/-- The second value is the first one, or it stands within it at some depth. -/
def Reaches : Value → Value → Prop :=
  ReflTransGen account.Holds

/-- A value stands within itself. -/
def IsCircular (value : Value) : Prop :=
  TransGen account.Holds value value

/-- What is told of a value as the tree of all its parts. -/
inductive Unfolds : Value → α → Prop
  | intro {value : Value} {told : Value → α}
    (hparts : ∀ part ∈ account.parts value, Unfolds part (told part)) :
    Unfolds value (account.around value ((account.parts value).map told))

/-- What is told of a value that stands within others, the innermost first, where a value that is
one of those is only marked. -/
inductive Marks (mark : α) : List Value → Value → α → Prop
  | circular {above : List Value} {value : Value} (hmem : value ∈ above) :
    Marks mark above value mark
  | whole {above : List Value} {value : Value} {told : Value → α} (hnew : value ∉ above)
    (hparts : ∀ part ∈ account.parts value, Marks mark (value :: above) part (told part)) :
    Marks mark above value (account.around value ((account.parts value).map told))

/-- A value is come to by a path on which no value is met twice before it. The values on the path
are given, the last one first. -/
inductive Occurs (root : Value) : List Value → Value → Prop
  | root : Occurs root [] root
  | part {above : List Value} {value part : Value} (h : Occurs root above value)
    (hnew : value ∉ above) (hpart : part ∈ account.parts value) :
    Occurs root (value :: above) part

variable {account} {value other root : Value} {above : List Value} {mark a b : α}

/-- There is one thing at most to tell of a value. -/
theorem Unfolds.unique (ha : account.Unfolds value a) (hb : account.Unfolds value b) : a = b := by
  induction ha generalizing b with
  | intro _ ih =>
    cases hb with
    | intro hparts =>
      rw [List.map_congr_left fun part hmem => ih part hmem (hparts part hmem)]

/-- A value into which no path goes on for ever does not stand within itself. -/
theorem not_isCircular_of_acc (h : Acc (Function.swap account.Holds) value) :
    ¬ account.IsCircular value := by
  replace h : Acc (TransGen (Function.swap account.Holds)) value := h.transGen
  induction h with
  | intro value _ ih =>
    intro hcircle
    have hself := Relation.transGen_swap.mpr hcircle
    exact ih value hself hcircle

/-- A tree holds no value that stands within itself. -/
theorem Unfolds.not_isCircular (h : account.Unfolds value a)
    (hreach : account.Reaches value other) : ¬ account.IsCircular other := by
  have hvalue : Acc (Function.swap account.Holds) value := by
    clear hreach
    induction h with
    | intro _ ih => exact ⟨_, ih⟩
  have hother : Acc (Function.swap account.Holds) other := by
    induction hreach with
    | refl => exact hvalue
    | tail _ hstep ih => exact ih.inv hstep
  exact not_isCircular_of_acc hother

/-! ### Marks -/

theorem Marks.unique (ha : account.Marks mark above value a)
    (hb : account.Marks mark above value b) : a = b := by
  induction ha generalizing b with
  | circular hmem =>
    cases hb with
    | circular => rfl
    | whole hnew => exact absurd hmem hnew
  | whole hnew _ ih =>
    cases hb with
    | circular hmem => exact absurd hmem hnew
    | whole _ hparts =>
      rw [List.map_congr_left fun part hmem => ih part hmem (hparts part hmem)]

/-- Where no value stands within itself, nothing is marked. -/
theorem Marks.unfolds (h : account.Marks mark above value a)
    (habove : ∀ outer ∈ above, TransGen account.Holds outer value)
    (htree : ∀ inner, account.Reaches value inner → ¬ account.IsCircular inner) :
    account.Unfolds value a := by
  induction h with
  | circular hmem => exact absurd (habove _ hmem) (htree _ .refl)
  | whole _ _ ih =>
    refine .intro fun part hpart => ih part hpart ?_ fun inner hreach => ?_
    · rw [List.forall_mem_cons]
      exact ⟨.single hpart, fun outer hmem => (habove outer hmem).tail hpart⟩
    · exact htree inner (.head hpart hreach)

/-- What is on the path to a value that occurs occurs as well, before it is met again. -/
theorem Occurs.of_mem (h : account.Occurs root above value) (hmem : other ∈ above) :
    ∃ before, other ∉ before ∧ account.Occurs root before other := by
  induction h with
  | root => cases hmem
  | part hvalue hnew _ ih =>
    rcases List.mem_cons.mp hmem with rfl | hmem
    · exact ⟨_, hnew, hvalue⟩
    · exact ih hmem

/-- All values within a value occur there before they are met again. -/
theorem exists_occurs (hreach : account.Reaches root value) :
    ∃ above, value ∉ above ∧ account.Occurs root above value := by
  induction hreach with
  | refl => exact ⟨[], List.not_mem_nil, .root⟩
  | @tail outer part _ hpart ih =>
    obtain ⟨above, hnew, houter⟩ := ih
    have hoccurs : account.Occurs root (outer :: above) part := .part houter hnew hpart
    by_cases hmem : part ∈ outer :: above
    · exact hoccurs.of_mem hmem
    · exact ⟨_, hmem, hoccurs⟩

end Account

end Doctest.Script
