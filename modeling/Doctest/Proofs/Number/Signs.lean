import Doctest.Proofs.Number.Doubles

/-!
# Doubles without a minus

The double of a natural number has no minus, however large the number is and wherever it is rounded.
-/

namespace Doctest.Number

open Float.Model Float.Model.UnpackedFloat

/-- The sign of an unpacked double; what is no number has a plus. -/
def signOf : UnpackedFloat → Sign
  | .infinity s | .zero s | .finite s _ _ _ => s
  | .notANumber => .positive

theorem signOf_roundWithAccuracy (f : Format) (s : Sign) (m : Nat) (e : Int) (a : Accuracy) :
    signOf (roundWithAccuracy f s m e a) = s := by
  unfold roundWithAccuracy
  dsimp only
  split <;> rfl

theorem signOf_ofNat (f : Format) (n : Nat) : signOf (UnpackedFloat.ofNat f n) = .positive := by
  rw [UnpackedFloat.ofNat, UnpackedFloat.ofInt]
  unfold UnpackedFloat.normalize
  split
  case h_1 hless => exact absurd (Int.compare_eq_lt.mp hless) (by omega)
  case h_2 => rfl
  case h_3 => exact signOf_roundWithAccuracy f _ _ _ _

theorem signOf_mul (f : Format) {a b : UnpackedFloat} (ha : signOf a = .positive)
    (hb : signOf b = .positive) : signOf (UnpackedFloat.mul f a b) = .positive := by
  cases a <;> cases b <;> cases ha <;> cases hb
  case finite.finite => exact signOf_roundWithAccuracy f _ _ _ _
  all_goals rfl

/-- The sign stays where a double is packed. -/
theorem unpackSign_pack (a : UnpackedFloat) :
    Sign.ofBitVec (unpackSign (UnpackedFloat.pack .binary64 a)) = signOf a := by
  cases a with
  | finite s m e hm =>
    unfold UnpackedFloat.pack packedInfinity
    dsimp only
    split_ifs <;> exact ofBitVec_unpackSign _ _ _
  | infinity | zero | notANumber => exact ofBitVec_unpackSign _ _ _

theorem signOf_unpack {b : BitVec Format.binary64.numBits}
    (h : Sign.ofBitVec (unpackSign b) = .positive) : signOf (unpack .binary64 b) = .positive := by
  unfold UnpackedFloat.unpack
  dsimp only
  rw [h]
  split_ifs <;> rfl

theorem signOf_unpack_pack {a : UnpackedFloat} (h : signOf a = .positive) :
    signOf (Float.Model.pack a).unpack = .positive :=
  signOf_unpack ((unpackSign_pack a).trans h)

theorem signOf_one : signOf (Float.ofBits 0x3FF0000000000000).toModel.unpack = .positive := by
  rfl

theorem signOf_float_ofNat (n : Nat) : signOf (Float.ofNat n).toModel.unpack = .positive := by
  change signOf (Float.ofScientific n false 0).toModel.unpack = .positive
  rw [Float.ofScientific]
  split
  case isTrue h =>
    rw [if_neg Bool.false_ne_true]
    exact signOf_unpack_pack (signOf_mul _ (signOf_unpack_pack (signOf_ofNat _ _)) signOf_one)
  case isFalse h =>
    refine signOf_unpack_pack ?_
    rw [if_neg Bool.false_ne_true, UnpackedFloat.ofScientific]
    split_ifs with hzero hlarge hsmall hwhole
    · rfl
    · rfl
    · rfl
    · exact signOf_mul _ (by rfl) (by rfl)
    · exact absurd (Int.natCast_nonneg 0) hwhole

/-- No natural number is minus one. -/
theorem ofNat_ne_minus_one (n : Nat) : Float.ofNat n ≠ -1.0 := by
  intro h
  have hminus : isMinus (signOf (-1.0 : Float).toModel.unpack) = true := by decide +kernel
  rw [← h, signOf_float_ofNat] at hminus
  cases hminus

end Doctest.Number
