/-!
# Comparing doubles

Two doubles compare as the other way round, with less and greater exchanged. So `==` is symmetric,
and every double that is a number equals itself.
-/

namespace Doctest.Number

open Float.Model

/-- What one double is to another, with less and greater exchanged, is what that is to it. -/
theorem swap_compare (a b : UnpackedFloat) : (a.compare b).map Ordering.swap = b.compare a := by
  cases a with
  | notANumber => cases b <;> rfl
  | infinity s =>
    cases b with
    | infinity t => cases s <;> cases t <;> rfl
    | notANumber | zero | finite => cases s <;> rfl
  | zero s =>
    cases b with
    | infinity t | finite t => cases t <;> rfl
    | notANumber | zero => rfl
  | finite s m e =>
    cases b with
    | infinity t => cases s <;> cases t <;> rfl
    | notANumber | zero => cases s <;> rfl
    | finite t n f =>
      have hexponent : (compare e f).swap = compare f e := Std.OrientedCmp.eq_swap.symm
      have hmantissa : (compare m n).swap = compare n m := Std.OrientedCmp.eq_swap.symm
      have hmagnitude : ((compare e f).then (compare m n)).swap =
          (compare f e).then (compare n m) := by
        rw [Ordering.swap_then, hexponent, hmantissa]
      cases s with
      | positive =>
        cases t with
        | positive => exact congrArg some hmagnitude
        | negative => rfl
      | negative =>
        cases t with
        | positive => rfl
        | negative => exact congrArg (fun order => some order.swap) hmagnitude

theorem compare_self {a : UnpackedFloat} (h : a.isNaN = false) : a.compare a = some .eq := by
  cases a with
  | notANumber => cases h
  | infinity s => cases s <;> rfl
  | zero s => rfl
  | finite s m e =>
    have hexponent : compare e e = .eq := Std.ReflCmp.compare_self
    have hmantissa : compare m m = .eq := Std.ReflCmp.compare_self
    have hmagnitude : (compare e e).then (compare m m) = .eq := by
      rw [hexponent, hmantissa]
      rfl
    cases s with
    | positive => exact congrArg some hmagnitude
    | negative => exact congrArg (fun order => some order.swap) hmagnitude

theorem beq_comm (x y : Float) : (x == y) = (y == x) := by
  change (x.toModel.unpack.compare y.toModel.unpack == some .eq) =
    (y.toModel.unpack.compare x.toModel.unpack == some .eq)
  rw [← swap_compare x.toModel.unpack]
  rcases x.toModel.unpack.compare y.toModel.unpack with _ | _ | _ | _ <;> rfl

theorem beq_self {x : Float} (h : x.isNaN = false) : (x == x) = true := by
  change (x.toModel.unpack.compare x.toModel.unpack == some .eq) = true
  rw [compare_self h]
  rfl

end Doctest.Number
