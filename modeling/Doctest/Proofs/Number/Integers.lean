import Doctest.Proofs.Number.Keys
import Doctest.Proofs.Number.Signs

/-!
# Integers among the doubles

The double of a natural number of at most fifty-three bits is that number. No natural number but
zero has the double of zero, however large it is and wherever it is rounded.
-/

namespace Doctest.Number

open Float.Model Float.Model.UnpackedFloat

variable {x : Float} {m n : Nat} {e : Int}

/-- A double is a whole number. -/
def IsInteger (x : Float) (n : Int) : Prop :=
  isWhole x = true ∧ truncated? x = some n

/-! ### Small numbers -/

/-- A mantissa with zeros behind, which the exponent takes away, has no fraction. -/
theorem parts_of_scaled (n k : Nat) :
    hasNoFraction (n * 2 ^ k) (-k) = true ∧ wholePart (n * 2 ^ k) (-k) = n := by
  cases k with
  | zero =>
    have hone : n * 2 ^ 0 = n := Nat.mul_one n
    rw [hone]
    exact ⟨rfl, Nat.mul_one n⟩
  | succ k =>
    exact ⟨decide_eq_true (Nat.mul_mod_left n _), Nat.mul_div_cancel n (Nat.two_pow_pos (k + 1))⟩

theorem isInteger_ofNat (hlt : n < 2 ^ 53) : IsInteger (Float.ofNat n) n := by
  rcases Nat.eq_zero_or_pos n with rfl | hpos
  · exact ⟨by decide +kernel, by decide +kernel⟩
  obtain ⟨k, hk, hlow, hhigh⟩ := exists_scale hpos hlt
  have hparts : Binary.ofFloat (Float.ofNat n) = .finite false (n * 2 ^ k) (-k) := by
    rw [ofFloat_eq, unpack_ofNat hk hlow hhigh]
    rfl
  obtain ⟨hwhole, hsize⟩ := parts_of_scaled n k
  rw [IsInteger, isWhole, truncated?, hparts]
  dsimp only
  rw [hsize]
  exact ⟨hwhole, rfl⟩

/-- Small integers are written with their digits. -/
theorem text_of_isInteger (h : IsInteger x n) (hlt : n < 2 ^ 53) : text x = toString n :=
  (isExact_of_small h.1 h.2 hlt).2

/-- An integer that is not negative is at least zero, also if it is the zero with a minus. -/
theorem ge_zero_of_isInteger (h : IsInteger x n) : x ≥ 0.0 := by
  obtain ⟨hwhole, hn⟩ := h
  rw [isWhole, ofFloat_eq] at hwhole
  rw [truncated?, ofFloat_eq] at hn
  refine decide_eq_true ?_
  change (UnpackedFloat.compare (.zero .positive) x.toModel.unpack).any (·.isLE) = true
  cases hunpack : x.toModel.unpack with
  | notANumber | infinity s =>
    rw [hunpack] at hn
    cases hn
  | zero s => rfl
  | finite s m e hm =>
    rw [hunpack] at hwhole hn
    cases s with
    | positive => rfl
    | negative =>
      have hsize : -(wholePart m e : Int) = n := Option.some.inj hn
      have hzero := mantissa_of_wholePart hwhole (by omega)
      omega

/-! ### Large numbers -/

theorem mantissa_shiftRight (k : Nat) (em : ExtendedMantissa) :
    (em >>> k).mantissa = em.mantissa / 2 ^ k := by
  change (k.repeat ExtendedMantissa.shiftRightOne em).mantissa = _
  induction k with
  | zero => exact (Nat.div_one _).symm
  | succ k ih =>
    change (k.repeat ExtendedMantissa.shiftRightOne em).mantissa / 2 = _
    rw [ih, Nat.div_div_eq_div_mul, Nat.pow_succ]

/-- Of a mantissa that is not zero so many bits are left that it does not become zero. -/
theorem shiftToTargetExponent_bounds (hm : m ≠ 0) (he : -1074 ≤ e) (a : Accuracy) :
    (shiftToTargetExponent .binary64 m e a).1.mantissa ≠ 0 ∧
      (shiftToTargetExponent .binary64 m e a).1.mantissa < 2 ^ 53 ∧
      e ≤ (shiftToTargetExponent .binary64 m e a).2 := by
  have hbits : (Format.binary64.mantissaBits : Int) = 53 := by decide
  have hmin : Format.binary64.minExponent = -1074 := by decide
  have hstart : (ExtendedMantissa.ofMantissaAndAccuracy m a).mantissa = m := by
    rcases a with _ | _ | _ | _ <;> rfl
  have hshift : (Format.binary64.targetExponent (totalExponent m e) - e).toNat = m.log2 - 52 := by
    rw [Format.targetExponent, totalExponent, hbits, hmin]
    omega
  unfold shiftToTargetExponent shiftToExponent
  dsimp only
  rw [mantissa_shiftRight, hstart, hshift]
  have hself := Nat.log2_self_le hm
  have hhigh := Nat.lt_log2_self (n := m)
  have hpos := Nat.two_pow_pos (m.log2 - 52)
  refine ⟨Nat.ne_of_gt (Nat.div_pos ?_ hpos), (Nat.div_lt_iff_lt_mul hpos).mpr ?_, by omega⟩
  · exact (Nat.pow_le_pow_right (by decide) (Nat.sub_le _ _)).trans hself
  · rw [← Nat.pow_add]
    exact hhigh.trans_le (Nat.pow_le_pow_right (by decide) (by omega))

theorem le_roundToNearestEven (m : Nat) (a : Accuracy) : m ≤ a.roundToNearestEven m := by
  rcases a with _ | _ | _ | _
  · exact le_rfl
  · exact le_rfl
  · exact Nat.le_add_right _ _
  · exact Nat.le_add_right _ _

/-- What is not too small is not rounded to zero. -/
theorem exists_roundWithAccuracy (s : Sign) (hm : m ≠ 0) (he : -1074 ≤ e) (a : Accuracy) :
    ∃ m' e' hpos, roundWithAccuracy .binary64 s m e a = .finite s m' e' hpos ∧ m' < 2 ^ 53 ∧
      e ≤ e' := by
  obtain ⟨hfirst, -, he₁⟩ := shiftToTargetExponent_bounds hm he a
  unfold roundWithAccuracy
  generalize shiftToTargetExponent .binary64 m e a = first at hfirst he₁
  obtain ⟨em, e₁⟩ := first
  have hrounded : em.roundedMantissa ≠ 0 := fun hzero =>
    hfirst (Nat.le_zero.mp (hzero ▸ le_roundToNearestEven em.mantissa em.accuracy))
  obtain ⟨hsecond, hlt, he₂⟩ := shiftToTargetExponent_bounds hrounded (he.trans he₁) .exact
  dsimp only
  rw [dif_neg hsecond]
  exact ⟨_, _, _, rfl, hlt, he₁.trans he₂⟩

/-- What is packed with a mantissa and an exponent in range is no zero. -/
theorem pack_ne_packedZero {s t : Sign} {hpos : 0 < m} (hm : m < 2 ^ 53) (he : -1074 ≤ e) :
    pack .binary64 (.finite s m e hpos) ≠ packedZero .binary64 t := by
  have hbits : Format.binary64.mantissaBits = 53 := by decide
  intro heq
  have hexponent := congrArg unpackExponent heq
  have hmantissa := congrArg unpackMantissa heq
  unfold UnpackedFloat.pack packedZero packedInfinity at hexponent hmantissa
  dsimp only at hexponent hmantissa
  split at hexponent
  · rw [unpackExponent_packComponents, unpackExponent_packComponents] at hexponent
    exact absurd hexponent (by decide)
  rename_i hrange
  rw [if_neg hrange] at hmantissa
  have hbiased : (e + Format.binary64.exponentBias +
      (Format.binary64.mantissaBitsWithoutImplicit : Nat)).toNat = (e + 1075).toNat := by
    change (e + 1023 + 52).toNat = _
    omega
  rw [hbiased] at hrange hexponent
  change ¬ 2048 ≤ _ at hrange
  split at hexponent
  · rw [unpackExponent_packComponents, unpackExponent_packComponents] at hexponent
    have hzero := congrArg BitVec.toNat hexponent
    change (e + 1075).toNat % 2048 = 0 at hzero
    omega
  · next hnormal =>
    rw [if_neg hnormal, unpackMantissa_packComponents, unpackMantissa_packComponents] at hmantissa
    have hzero := congrArg BitVec.toNat hmantissa
    change m % 2 ^ 52 = 0 at hzero
    rw [hbits] at hnormal
    exact hnormal (congrArg (· + 1) (log2_eq (by omega) hm))

/-- What is made of a number of more than fifty-three bits is made by rounding. -/
theorem ofScientific_of_pos (hpos : 0 < n) :
    UnpackedFloat.ofScientific .binary64 n 0 =
      roundWithAccuracy .binary64 .positive (n * 2 ^ 53) (-53) .exact := by
  have hfirst : n <<< Format.binary64.mantissaBits * 10 ^ (0 : Int).toNat = n * 2 ^ 53 := by
    rw [Nat.shiftLeft_eq]
    exact Nat.mul_one _
  rw [UnpackedFloat.ofScientific]
  split_ifs with hzero hlarge hsmall hwhole
  · exact absurd hzero (Nat.ne_of_gt hpos)
  · exact absurd hlarge (by decide)
  · exact absurd hsmall (by omega)
  · rw [UnpackedFloat.mul, hfirst]
    rfl
  · exact absurd le_rfl hwhole

/-- Only zero has the double of zero. -/
theorem ofNat_ne_zero (hpos : 0 < n) : Float.ofNat n ≠ Float.ofNat 0 := by
  intro heq
  by_cases hlt : n < 2 ^ 53
  · have hn := (isInteger_ofNat hlt).2
    rw [heq, (isInteger_ofNat (by decide)).2] at hn
    have : ((0 : Nat) : Int) = n := Option.some.inj hn
    omega
  obtain ⟨m, e, hm, hround, hsmall, he⟩ := exists_roundWithAccuracy .positive (a := .exact)
    (e := -53) (m := n * 2 ^ 53) (Nat.ne_of_gt (Nat.mul_pos hpos (Nat.two_pow_pos 53))) (by decide)
  have hlarge : Float.ofNat n = .ofModel (Float.Model.ofScientific n 0) := by
    change Float.ofScientific n false 0 = _
    rw [Float.ofScientific, dif_neg fun h => hlt h.1]
    rfl
  have hbits : (Float.ofNat n).toModel.toBits.toBitVec =
      pack .binary64 (.finite .positive m e hm) := by
    rw [hlarge, ← hround, ← ofScientific_of_pos hpos]
    rfl
  have hzero : (Float.ofNat 0).toModel.toBits.toBitVec = packedZero .binary64 .positive := by
    decide +kernel
  rw [heq, hzero] at hbits
  exact pack_ne_packedZero hsmall (by omega) hbits.symm

end Doctest.Number
