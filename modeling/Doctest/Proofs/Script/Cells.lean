import Doctest.Script.Inspect

/-!
# Cells

What is found in the cells of a heap after a cell was made or changed: the new contents in that
cell, and in all others what was there before.
-/

namespace Doctest.Script

deriving instance DecidableEq for Reaction, PromiseState

/-- An item that is added is found at the end. -/
theorem getD_push {α : Type} (xs : Array α) (x default : α) (i : Nat) :
    (xs.push x).getD i default = if i = xs.size then x else xs.getD i default := by
  rw [Array.getD_eq_getD_getElem?, Array.getElem?_push, Array.getD_eq_getD_getElem?]
  split <;> rfl

theorem getD_modify {α : Type} (xs : Array α) (f : α → α) (default : α) (i j : Nat) :
    (xs.modify i f).getD j default =
      if i = j ∧ j < xs.size then f (xs.getD j default) else xs.getD j default := by
  rw [Array.getD_eq_getD_getElem?, Array.getElem?_modify, Array.getD_eq_getD_getElem?]
  by_cases hij : i = j <;> by_cases hj : j < xs.size <;> simp [hij, hj]

namespace Heap

variable {kind other : CellKind} (heap : Heap)

/-- A new cell is the last of its kind. -/
theorem alloc_fst (cell : Cell kind) : (heap.alloc kind cell).1 = ⟨heap.count kind⟩ := by
  cases kind <;> rfl

theorem count_alloc (cell : Cell kind) :
    (heap.alloc kind cell).2.count other = heap.count other + if other = kind then 1 else 0 := by
  cases kind <;> cases other <;> simp [alloc, count]

@[simp] theorem count_modify (ref : Ref kind) (f : Cell kind → Cell kind) :
    (heap.modify ref f).count other = heap.count other := by
  cases kind <;> cases other <;> simp [modify, count]

/-- Where there is no cell, nothing is read. -/
theorem get_of_le (ref : Ref kind) (h : heap.count kind ≤ ref.index) :
    heap.get ref = Cell.missing kind := by
  cases kind <;> simp only [get, count] at h ⊢ <;> simp [Nat.not_lt.mpr h]

/-- What holds something is a cell of the heap. -/
theorem index_lt_of_get_ne {heap : Heap} {ref : Ref kind}
    (h : heap.get ref ≠ Cell.missing kind) : ref.index < heap.count kind :=
  Nat.lt_of_not_le fun hle => h (heap.get_of_le ref hle)

theorem get_alloc (cell : Cell kind) (ref : Ref kind) :
    (heap.alloc kind cell).2.get ref =
      if ref.index = heap.count kind then cell else heap.get ref := by
  cases kind <;> exact getD_push _ _ _ _

/-- Making a cell leaves the cells of other kinds. -/
theorem get_alloc_of_ne (cell : Cell kind) (ref : Ref other) (hne : other ≠ kind) :
    (heap.alloc kind cell).2.get ref = heap.get ref := by
  cases kind <;> cases other <;> first | rfl | exact absurd rfl hne

/-- Making a cell leaves all cells that there are. -/
theorem get_alloc_of_place_ne (cell : Cell kind) (ref : Ref other)
    (hne : ref.place ≠ ⟨kind, heap.count kind⟩) :
    (heap.alloc kind cell).2.get ref = heap.get ref := by
  by_cases hkind : other = kind
  · subst hkind
    rw [get_alloc, if_neg fun heq => hne (congrArg (Place.mk other) heq)]
  · exact heap.get_alloc_of_ne cell ref hkind

theorem get_modify (ref found : Ref kind) (f : Cell kind → Cell kind) :
    (heap.modify ref f).get found =
      if ref = found ∧ found.index < heap.count kind then f (heap.get found)
      else heap.get found := by
  obtain ⟨i⟩ := ref
  obtain ⟨j⟩ := found
  simp only [Ref.mk.injEq]
  cases kind <;> exact getD_modify _ _ _ _ _

/-- Changing a cell leaves the cells of other kinds. -/
theorem get_modify_of_ne (ref : Ref kind) (f : Cell kind → Cell kind) (found : Ref other)
    (hne : other ≠ kind) : (heap.modify ref f).get found = heap.get found := by
  cases kind <;> cases other <;> first | rfl | exact absurd rfl hne

/-- Changing a cell leaves all others. -/
theorem get_modify_of_place_ne (ref : Ref kind) (f : Cell kind → Cell kind) (found : Ref other)
    (hne : found.place ≠ ref.place) : (heap.modify ref f).get found = heap.get found := by
  by_cases hkind : other = kind
  · subst hkind
    rw [get_modify, if_neg]
    rintro ⟨rfl, -⟩
    exact hne rfl
  · exact heap.get_modify_of_ne ref f found hkind

/-- A heap has all cells that another one has. -/
def Grows (heap later : Heap) : Prop :=
  ∀ kind, heap.count kind ≤ later.count kind

variable {heap} {later last : Heap}

theorem Grows.refl (heap : Heap) : heap.Grows heap :=
  fun _ => Nat.le_refl _

theorem Grows.trans (h : heap.Grows later) (hlater : later.Grows last) : heap.Grows last :=
  fun kind => Nat.le_trans (h kind) (hlater kind)

theorem grows_alloc (heap : Heap) (cell : Cell kind) : heap.Grows (heap.alloc kind cell).2 := by
  intro other
  rw [count_alloc]
  omega

theorem grows_modify (heap : Heap) (ref : Ref kind) (f : Cell kind → Cell kind) :
    heap.Grows (heap.modify ref f) :=
  fun _ => Nat.le_of_eq (heap.count_modify ref f).symm

end Heap

end Doctest.Script
