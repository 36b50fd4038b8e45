import Mathlib
import Doctest.Number.Binary
import Doctest.Number.Reading

/-!
# Doubles and their parts

A double is determined by its parts, and its parts are what it is unpacked into when numbers are
calculated with. Where the mantissa of a result has its fifty-three bits, nothing is rounded: so the
double of a whole number of at most fifty-three bits has the number as its value, and times one it
is itself.
-/

namespace Doctest.Number

open Float.Model Float.Model.UnpackedFloat

variable {x y : Float}

/-! ### Parts and bits -/

theorem toNat_mantissa (b : BitVec Format.binary64.numBits) :
    (unpackMantissa b).toNat = b.toNat % 2 ^ 52 := by
  simp [unpackMantissa, BitVec.extractLsb]

theorem toNat_exponent (b : BitVec Format.binary64.numBits) :
    (unpackExponent b).toNat = b.toNat / 2 ^ 52 % 2 ^ 11 := by
  simp [unpackExponent, BitVec.extractLsb, Nat.shiftRight_eq_div_pow]

theorem toNat_sign (b : BitVec Format.binary64.numBits) :
    (unpackSign b).toNat = b.toNat / 2 ^ 63 := by
  have h : b.toNat < 2 ^ 64 := b.isLt
  simp [unpackSign, BitVec.extractLsb, Nat.shiftRight_eq_div_pow]
  omega

/-- Whether a sign is a minus. -/
def isMinus : Sign → Bool
  | .negative => true
  | .positive => false

/-- The parts of an unpacked double. -/
def Binary.ofUnpacked : UnpackedFloat → Binary
  | .notANumber => .nan
  | .infinity s => .infinite (isMinus s)
  | .zero s => .finite (isMinus s) 0 (-1074)
  | .finite s m e _ => .finite (isMinus s) m e

theorem isMinus_ofBitVec (b : BitVec Format.binary64.numBits) :
    isMinus (Sign.ofBitVec (unpackSign b)) = decide (2 ^ 63 ≤ b.toNat) := by
  have hlt : b.toNat < 2 ^ 64 := b.isLt
  have hsign := toNat_sign b
  unfold Sign.ofBitVec
  split
  case isTrue h =>
    rw [h] at hsign
    have : b.toNat / 2 ^ 63 = 0 := hsign.symm
    exact (decide_eq_false (by omega)).symm
  case isFalse h =>
    have hne : (unpackSign b).toNat ≠ 0 := fun hzero => h (BitVec.toNat_inj.mp hzero)
    exact (decide_eq_true (by omega)).symm

theorem unpackExponent_eq_iff (b : BitVec Format.binary64.numBits) (n : Nat) (h : n < 2 ^ 11) :
    unpackExponent b = BitVec.ofNat 11 n ↔ b.toNat / 2 ^ 52 % 2 ^ 11 = n := by
  rw [← BitVec.toNat_inj, toNat_exponent, BitVec.toNat_ofNat, Nat.mod_eq_of_lt h]

/-- The parts of a double with some bits. -/
def Binary.ofBits (bits : Nat) : Binary :=
  let negative := decide (2 ^ 63 ≤ bits)
  let exponent : Nat := bits / 2 ^ 52 % 2 ^ 11
  let fraction : Nat := bits % 2 ^ 52
  if exponent = 2047 then
    if fraction = 0 then .infinite negative else .nan
  else if exponent = 0 then .finite negative fraction (-1074)
  else .finite negative (2 ^ 52 + fraction) ((exponent : Int) - 1075)

theorem ofFloat_eq_ofBits (x : Float) : Binary.ofFloat x = .ofBits x.toBits.toNat :=
  rfl

theorem ofUnpacked_unpack (b : BitVec Format.binary64.numBits) :
    Binary.ofUnpacked (unpack .binary64 b) = .ofBits b.toNat := by
  have hfraction := toNat_mantissa b
  have hexponent := toNat_exponent b
  have hsign := isMinus_ofBitVec b
  have hbias : (Format.binary64.exponentBias : Int) +
      (Format.binary64.mantissaBitsWithoutImplicit : Nat) = 1075 := by
    decide
  have htop : unpackExponent b = -1#11 ↔ b.toNat / 2 ^ 52 % 2 ^ 11 = 2047 :=
    unpackExponent_eq_iff b 2047 (by decide)
  have hlow : unpackExponent b = 0#11 ↔ b.toNat / 2 ^ 52 % 2 ^ 11 = 0 :=
    unpackExponent_eq_iff b 0 (by decide)
  have hzero : unpackMantissa b = 0#52 ↔ b.toNat % 2 ^ 52 = 0 := by
    rw [← BitVec.toNat_inj, hfraction]
    rfl
  have hone : (1#1 ++ unpackMantissa b).toNat = 2 ^ 52 + b.toNat % 2 ^ 52 := by
    rw [BitVec.toNat_append, ← Nat.shiftLeft_add_eq_or_of_lt (unpackMantissa b).isLt, hfraction]
    rfl
  unfold UnpackedFloat.unpack Binary.ofBits
  dsimp only
  rw [hexponent, hbias]
  by_cases h : b.toNat / 2 ^ 52 % 2 ^ 11 = 2047
  · rw [if_pos h, if_pos (htop.mpr h)]
    by_cases hmantissa : b.toNat % 2 ^ 52 = 0
    · rw [if_pos hmantissa, if_pos (hzero.mpr hmantissa), Binary.ofUnpacked, hsign]
    · rw [if_neg hmantissa, if_neg fun h => hmantissa (hzero.mp h), Binary.ofUnpacked]
  rw [if_neg h, if_neg fun h' => h (htop.mp h')]
  by_cases h : b.toNat / 2 ^ 52 % 2 ^ 11 = 0
  · rw [if_pos h, if_pos (hlow.mpr h)]
    by_cases hmantissa : b.toNat % 2 ^ 52 = 0
    · rw [dif_pos (hzero.mpr hmantissa), hmantissa, Binary.ofUnpacked, hsign]
    · rw [dif_neg fun h => hmantissa (hzero.mp h), Binary.ofUnpacked, hsign, hfraction, h]
      rfl
  · rw [if_neg h, if_neg fun h' => h (hlow.mp h'), Binary.ofUnpacked, hsign, hone]

/-- A double has the parts that it is unpacked into. -/
theorem ofFloat_eq (x : Float) : Binary.ofFloat x = .ofUnpacked x.toModel.unpack :=
  (ofUnpacked_unpack x.toModel.toBits.toBitVec).symm

/-- The bits of a sign. -/
def Binary.signBits (negative : Bool) : Nat :=
  if negative then 2 ^ 63 else 0

/-- The bits of a double with some parts, which has to be a number. -/
def Binary.toBits : Binary → Nat
  | .nan => 0
  | .infinite negative => signBits negative + 2047 * 2 ^ 52
  | .finite negative mantissa exponent =>
    if mantissa < 2 ^ 52 then signBits negative + mantissa
    else signBits negative + (exponent + 1075).toNat * 2 ^ 52 + (mantissa - 2 ^ 52)

theorem signBits_eq (bits : Nat) (hbits : bits < 2 ^ 64) :
    Binary.signBits (decide (2 ^ 63 ≤ bits)) = bits / 2 ^ 63 * 2 ^ 63 := by
  unfold Binary.signBits
  split
  case isTrue h =>
    have := of_decide_eq_true h
    omega
  case isFalse h =>
    have := of_decide_eq_false (Bool.not_eq_true _ ▸ h)
    omega

theorem toBits_ofBits {bits : Nat} (hbits : bits < 2 ^ 64) (hnan : Binary.ofBits bits ≠ .nan) :
    (Binary.ofBits bits).toBits = bits := by
  have hsign := signBits_eq bits hbits
  unfold Binary.ofBits at hnan ⊢
  dsimp only at hnan ⊢
  by_cases hexponent : bits / 2 ^ 52 % 2 ^ 11 = 2047
  · rw [if_pos hexponent] at hnan ⊢
    by_cases hfraction : bits % 2 ^ 52 = 0
    · rw [if_pos hfraction, Binary.toBits, hsign]
      omega
    · rw [if_neg hfraction] at hnan
      exact absurd rfl hnan
  rw [if_neg hexponent]
  by_cases hlow : bits / 2 ^ 52 % 2 ^ 11 = 0
  · rw [if_pos hlow, Binary.toBits, if_pos (Nat.mod_lt _ (by decide)), hsign]
    omega
  · rw [if_neg hlow, Binary.toBits, if_neg (Nat.not_lt.mpr (Nat.le_add_right _ _)), hsign]
    omega

theorem toBits_of_nan (h : Binary.ofFloat x = .nan) :
    x.toModel.toBits.toBitVec = packedNaN .binary64 := by
  have hvalid := x.toModel.valid.eq_packedNaN
  rw [ofFloat_eq] at h
  change Binary.ofUnpacked (unpack .binary64 x.toModel.toBits.toBitVec) = _ at h
  unfold UnpackedFloat.unpack at h
  dsimp only at h
  split at h
  case isTrue hexponent =>
    split at h
    · cases h
    case isFalse hmantissa => exact hvalid hexponent hmantissa
  case isFalse =>
    split at h
    · split at h <;> cases h
    · cases h

/-- Doubles with the same parts are the same: what is no number is so in one way only. -/
theorem ofFloat_injective (h : Binary.ofFloat x = Binary.ofFloat y) : x = y := by
  suffices hbits : x.toModel.toBits.toBitVec = y.toModel.toBits.toBitVec by
    obtain ⟨⟨⟨bits⟩, _⟩⟩ := x
    obtain ⟨⟨⟨bits'⟩, _⟩⟩ := y
    obtain rfl : bits = bits' := hbits
    rfl
  by_cases hnan : Binary.ofFloat x = .nan
  · rw [toBits_of_nan hnan, toBits_of_nan (h.symm.trans hnan)]
  · apply BitVec.eq_of_toNat_eq
    have hx := toBits_ofBits x.toBits.toBitVec.isLt hnan
    have hy := toBits_ofBits y.toBits.toBitVec.isLt fun hy => hnan (h.trans hy)
    exact hx.symm.trans ((congrArg Binary.toBits h).trans hy)

/-- A finite double has a mantissa of fifty-three bits, or the least exponent. -/
theorem range_of_finite {negative : Bool} {m : Nat} {e : Int}
    (h : Binary.ofFloat x = .finite negative m e) :
    m < 2 ^ 53 ∧ -1074 ≤ e ∧ e ≤ 971 ∧ (2 ^ 52 ≤ m ∨ m < 2 ^ 52 ∧ e = -1074) := by
  rw [ofFloat_eq_ofBits, Binary.ofBits] at h
  split at h
  · split at h <;> cases h
  split at h
  · cases h
    omega
  · cases h
    omega

/-! ### Rounding what needs no rounding -/

theorem log2_eq {n k : Nat} (hlow : 2 ^ k ≤ n) (hhigh : n < 2 ^ (k + 1)) : n.log2 = k := by
  have hn : n ≠ 0 := Nat.ne_of_gt (Nat.lt_of_lt_of_le (Nat.two_pow_pos k) hlow)
  have := (Nat.le_log2 hn).mpr hlow
  have := (Nat.log2_lt hn).mpr hhigh
  omega

/-- A mantissa that ends in zeros is shifted without a loss. -/
theorem shiftRight_exact (m k : Nat) :
    (⟨m * 2 ^ k, false, false⟩ : ExtendedMantissa) >>> k = ⟨m, false, false⟩ := by
  change k.repeat ExtendedMantissa.shiftRightOne _ = _
  induction k generalizing m with
  | zero => rw [Nat.pow_zero, Nat.mul_one, Nat.repeat]
  | succ k ih =>
    have hshift : m * 2 ^ (k + 1) = m * 2 * 2 ^ k := by
      rw [Nat.pow_succ, Nat.mul_assoc, Nat.mul_comm 2]
    rw [Nat.repeat, hshift, ih]
    simp [ExtendedMantissa.shiftRightOne]

/-- The place of the last bit of a mantissa with fifty-three bits is where it stands. -/
theorem shiftToTargetExponent_exact {m k : Nat} {e : Int} (hlow : 2 ^ 52 ≤ m) (hhigh : m < 2 ^ 53)
    (he : -1074 ≤ e) :
    shiftToTargetExponent .binary64 (m * 2 ^ k) (e - k) .exact = (⟨m, false, false⟩, e) := by
  have hlog : (m * 2 ^ k).log2 = 52 + k := by
    refine log2_eq ?_ ?_
    · rw [Nat.pow_add]
      exact Nat.mul_le_mul_right _ hlow
    · rw [show 52 + k + 1 = 53 + k by omega, Nat.pow_add]
      exact Nat.mul_lt_mul_of_pos_right hhigh (Nat.two_pow_pos k)
  have htarget : Format.binary64.targetExponent (totalExponent (m * 2 ^ k) (e - k)) = e := by
    have hbits : (Format.binary64.mantissaBits : Int) = 53 := by decide
    have hmin : Format.binary64.minExponent = -1074 := by decide
    rw [Format.targetExponent, totalExponent, hlog, hbits, hmin]
    omega
  have hshift : (e - (e - k)).toNat = k := by omega
  unfold shiftToTargetExponent shiftToExponent
  dsimp only
  rw [htarget, hshift, ExtendedMantissa.ofMantissaAndAccuracy, shiftRight_exact]
  congr 1
  omega

/-- A number with a mantissa of fifty-three bits is not changed by rounding. -/
theorem roundWithAccuracy_exact {s : Sign} {m k : Nat} {e : Int} (hlow : 2 ^ 52 ≤ m)
    (hhigh : m < 2 ^ 53) (he : -1074 ≤ e) :
    roundWithAccuracy .binary64 s (m * 2 ^ k) (e - k) .exact =
      .finite s m e (Nat.lt_of_lt_of_le (by decide) hlow) := by
  have hfirst := shiftToTargetExponent_exact (k := k) hlow hhigh he
  have hsecond := shiftToTargetExponent_exact (k := 0) hlow hhigh he
  rw [Nat.pow_zero, Nat.mul_one, Int.natCast_zero, Int.sub_zero] at hsecond
  unfold roundWithAccuracy
  rw [hfirst]
  dsimp only [ExtendedMantissa.roundedMantissa, ExtendedMantissa.accuracy,
    Accuracy.roundToNearestEven]
  rw [hsecond]
  exact dif_neg (Nat.ne_of_gt (Nat.lt_of_lt_of_le (Nat.two_pow_pos 52) hlow))

theorem ofBitVec_unpackSign (s : Sign) (exponent : BitVec 11) (mantissa : BitVec 52) :
    Sign.ofBitVec (unpackSign (packComponents .binary64 s exponent mantissa)) = s := by
  unfold unpackSign packComponents BitVec.extractLsb
  rw [BitVec.extractLsb'_append_eq_of_le (by decide),
    BitVec.extractLsb'_append_eq_of_le (by decide)]
  cases s <;> rfl

/-- What a double is unpacked into whose exponent is neither the greatest nor the least. -/
theorem unpack_of_normal {b : BitVec Format.binary64.numBits} {m : Nat} {e : Int} (hm : 0 < m)
    (htop : unpackExponent b ≠ -1#11) (hbottom : unpackExponent b ≠ 0#11)
    (hmantissa : (1#1 ++ unpackMantissa b).toNat = m)
    (hexponent : ((unpackExponent b).toNat : Int) - 1075 = e) :
    unpack .binary64 b = .finite (Sign.ofBitVec (unpackSign b)) m e hm := by
  have hbias : (Format.binary64.exponentBias : Int) +
      (Format.binary64.mantissaBitsWithoutImplicit : Nat) = 1075 := by
    decide
  subst hmantissa hexponent
  unfold UnpackedFloat.unpack
  dsimp only
  rw [if_neg htop, if_neg hbottom, hbias]

/-- A number with a mantissa of fifty-three bits and an exponent in range is unpacked into what it
was packed from. -/
theorem unpack_pack {s : Sign} {m : Nat} {e : Int} (hm : 0 < m) (hlow : 2 ^ 52 ≤ m)
    (hhigh : m < 2 ^ 53) (he : -1074 ≤ e) (he' : e ≤ 971) :
    (Float.Model.pack (.finite s m e hm)).unpack = .finite s m e hm := by
  change unpack .binary64 (pack .binary64 (.finite s m e hm)) = _
  have hbiased : (e + Format.binary64.exponentBias +
      (Format.binary64.mantissaBitsWithoutImplicit : Nat)).toNat = (e + 1075).toNat := by
    change (e + 1023 + 52).toNat = _
    omega
  have hbits : Format.binary64.mantissaBits = 53 := by decide
  have hexponent : (BitVec.ofNat 11 (e + 1075).toNat).toNat = (e + 1075).toNat := by
    rw [BitVec.toNat_ofNat, Nat.mod_eq_of_lt (by omega)]
  have htop : BitVec.ofNat 11 (e + 1075).toNat ≠ -1#11 := fun h => by
    have : (e + 1075).toNat = 2047 := hexponent.symm.trans (congrArg BitVec.toNat h)
    omega
  have hbottom : BitVec.ofNat 11 (e + 1075).toNat ≠ 0#11 := fun h => by
    have : (e + 1075).toNat = 0 := hexponent.symm.trans (congrArg BitVec.toNat h)
    omega
  have hmantissa : (1#1 ++ BitVec.ofNat 52 m).toNat = m := by
    rw [BitVec.toNat_append, ← Nat.shiftLeft_add_eq_or_of_lt (BitVec.ofNat 52 m).isLt,
      BitVec.toNat_ofNat]
    change 2 ^ 52 + m % 2 ^ 52 = m
    omega
  unfold UnpackedFloat.pack
  dsimp only
  rw [hbiased, log2_eq hlow hhigh, hbits, if_neg (by change ¬ 2048 ≤ _; omega), if_pos rfl]
  rw [unpack_of_normal hm (e := e), ofBitVec_unpackSign]
  · rw [unpackExponent_packComponents]
    exact htop
  · rw [unpackExponent_packComponents]
    exact hbottom
  · rw [unpackMantissa_packComponents]
    exact hmantissa
  · rw [unpackExponent_packComponents, hexponent]
    omega

/-! ### Whole numbers -/

/-- A number times one is itself. -/
theorem mul_one_exact {s : Sign} {m : Nat} {e : Int} (hm : 0 < m) (hlow : 2 ^ 52 ≤ m)
    (hhigh : m < 2 ^ 53) (he : -1074 ≤ e) :
    UnpackedFloat.mul .binary64 (.finite s m e hm)
      (Float.ofBits 0x3FF0000000000000).toModel.unpack = .finite s m e hm := by
  have hone : (Float.ofBits 0x3FF0000000000000).toModel.unpack =
      .finite .positive (2 ^ 52) (-52) (by decide) := by
    rfl
  have hsign : s * .positive = s := by cases s <;> rfl
  rw [hone, UnpackedFloat.mul, hsign]
  exact roundWithAccuracy_exact (k := 52) hlow hhigh he

/-- The double of a positive number of at most fifty-three bits. -/
theorem unpack_ofNat {n k : Nat} (hk : k ≤ 52) (hlow : 2 ^ 52 ≤ n * 2 ^ k)
    (hhigh : n * 2 ^ k < 2 ^ 53) :
    (Float.ofNat n).toModel.unpack =
      .finite .positive (n * 2 ^ k) (-k) (Nat.lt_of_lt_of_le (Nat.two_pow_pos 52) hlow) := by
  have hn : n ≠ 0 := by
    rintro rfl
    omega
  have hsmall : n < 2 ^ 53 :=
    Nat.lt_of_le_of_lt (Nat.le_mul_of_pos_right n (Nat.two_pow_pos k)) hhigh
  have hlog : n.log2 = 52 - k := by
    have hpow : 2 ^ (52 - k) * 2 ^ k = 2 ^ 52 := by rw [← Nat.pow_add, Nat.sub_add_cancel hk]
    have hpow' : 2 ^ (52 - k + 1) * 2 ^ k = 2 ^ 53 := by
      rw [← Nat.pow_add]
      congr 1
      omega
    refine log2_eq ?_ ?_
    · exact Nat.le_of_mul_le_mul_right (hpow ▸ hlow) (Nat.two_pow_pos k)
    · exact Nat.lt_of_mul_lt_mul_right (hpow' ▸ hhigh)
  have hround : UnpackedFloat.ofNat .binary64 n =
      .finite .positive (n * 2 ^ k) (-k) (Nat.lt_of_lt_of_le (Nat.two_pow_pos 52) hlow) := by
    have hpositive : compare (n : Int) 0 = .gt := Int.compare_eq_gt.mpr (by omega)
    have hbits : (Format.binary64.mantissaBits : Int) = 53 := by decide
    have hmin : Format.binary64.minExponent = -1074 := by decide
    have htarget : Format.binary64.targetExponent (totalExponent n 0) = -k := by
      rw [Format.targetExponent, totalExponent, hlog, hbits, hmin]
      omega
    have hshift : (0 - -(k : Int)).toNat = k := by omega
    rw [UnpackedFloat.ofNat, UnpackedFloat.ofInt, UnpackedFloat.normalize, hpositive]
    dsimp only
    rw [Int.toNat_natCast, UnpackedFloat.round, htarget, decreaseExponent]
    dsimp only
    rw [hshift, Nat.shiftLeft_eq, Int.zero_sub]
    have h := roundWithAccuracy_exact (s := .positive) (k := 0) hlow hhigh (e := -k) (by omega)
    rwa [Nat.pow_zero, Nat.mul_one, Int.natCast_zero, Int.sub_zero] at h
  have hconvert : Float.ofNat n = n.toUInt64.toFloat * Float.ofBits 0x3FF0000000000000 := by
    change Float.ofScientific n false 0 = _
    rw [Float.ofScientific, dif_pos ⟨hsmall, Nat.zero_le 22⟩]
    rfl
  have hword : n.toUInt64.toFloat.toModel.unpack =
      .finite .positive (n * 2 ^ k) (-k) (Nat.lt_of_lt_of_le (Nat.two_pow_pos 52) hlow) := by
    change (Float.Model.pack (UnpackedFloat.ofNat .binary64 n.toUInt64.toNat)).unpack = _
    rw [Nat.toUInt64_eq, UInt64.toNat_ofNat_of_lt' (by change n < 2 ^ 64; omega), hround]
    exact unpack_pack _ hlow hhigh (by omega) (by omega)
  rw [hconvert]
  change (Float.Model.pack (UnpackedFloat.mul .binary64 n.toUInt64.toFloat.toModel.unpack
    (Float.ofBits 0x3FF0000000000000).toModel.unpack)).unpack = _
  rw [hword, mul_one_exact _ hlow hhigh (by omega)]
  exact unpack_pack _ hlow hhigh (by omega) (by omega)

/-- The mantissa of a whole double of at most fifty-three bits is its size, with zeros behind. -/
theorem exists_shift {m n : Nat} {e : Int} (hwhole : hasNoFraction m e = true)
    (hn : wholePart m e = n) (hpos : 0 < n) (hlt : n < 2 ^ 53) (hm : m < 2 ^ 53)
    (hrange : 2 ^ 52 ≤ m ∨ m < 2 ^ 52 ∧ e = -1074) :
    ∃ k : Nat, k ≤ 52 ∧ e = -k ∧ m = n * 2 ^ k := by
  cases e with
  | ofNat k =>
    have hsize : m * 2 ^ k = n := hn
    have hlow : 2 ^ 52 ≤ m := hrange.resolve_right nofun
    cases k with
    | zero => exact ⟨0, Nat.zero_le 52, rfl, by omega⟩
    | succ k =>
      have hpow : m * 2 ≤ m * 2 ^ (k + 1) :=
        Nat.mul_le_mul_left m (Nat.le_self_pow (Nat.succ_ne_zero k) 2)
      omega
  | negSucc k =>
    have hexact : m % 2 ^ (k + 1) = 0 := of_decide_eq_true hwhole
    have hsize : m / 2 ^ (k + 1) = n := hn
    have hshift : m = n * 2 ^ (k + 1) := by
      rw [← hsize, Nat.div_mul_cancel (Nat.dvd_of_mod_eq_zero hexact)]
    have hpow : 2 ^ (k + 1) ≤ m := by
      rw [hshift]
      exact Nat.le_mul_of_pos_left _ hpos
    have hk : k + 1 < 53 :=
      (Nat.pow_lt_pow_iff_right (a := 2) (by decide)).mp (Nat.lt_of_le_of_lt hpow hm)
    exact ⟨k + 1, by omega, rfl, hshift⟩

/-- The double of a positive number of at most fifty-three bits, times one. -/
theorem unpack_ofNat_mul_one {n k : Nat} (hk : k ≤ 52) (hlow : 2 ^ 52 ≤ n * 2 ^ k)
    (hhigh : n * 2 ^ k < 2 ^ 53) :
    (Float.ofNat n * Float.ofScientific 1 false 0).toModel.unpack =
      .finite .positive (n * 2 ^ k) (-k) (Nat.lt_of_lt_of_le (Nat.two_pow_pos 52) hlow) := by
  have hone : Float.ofScientific 1 false 0 = Float.ofBits 0x3FF0000000000000 := by decide
  rw [hone]
  change (Float.Model.pack (UnpackedFloat.mul .binary64 (Float.ofNat n).toModel.unpack
    (Float.ofBits 0x3FF0000000000000).toModel.unpack)).unpack = _
  rw [unpack_ofNat hk hlow hhigh, mul_one_exact _ hlow hhigh (by omega)]
  exact unpack_pack _ hlow hhigh (by omega) (by omega)

/-- A whole double of at most fifty-three bits is that of its size, with its sign. -/
theorem eq_of_whole {negative : Bool} {m n : Nat} {e : Int}
    (hparts : Binary.ofFloat x = .finite negative m e) (hwhole : hasNoFraction m e = true)
    (hn : wholePart m e = n) (hpos : 0 < n) (hlt : n < 2 ^ 53) :
    withSign negative (Float.ofNat n * Float.ofScientific 1 false 0) = x := by
  obtain ⟨hm, -, -, hrange⟩ := range_of_finite hparts
  obtain ⟨k, hk, rfl, rfl⟩ := exists_shift hwhole hn hpos hlt hm hrange
  have hlow : 2 ^ 52 ≤ n * 2 ^ k := hrange.resolve_right fun h => by omega
  have hmpos : 0 < n * 2 ^ k := Nat.lt_of_lt_of_le (Nat.two_pow_pos 52) hlow
  have hsize := unpack_ofNat_mul_one hk hlow hm
  apply ofFloat_injective
  rw [hparts]
  cases negative with
  | false => rw [withSign, if_neg nofun, ofFloat_eq, hsize, Binary.ofUnpacked, isMinus]
  | true =>
    have hneg : (-(Float.ofNat n * Float.ofScientific 1 false 0)).toModel.unpack =
        .finite .negative (n * 2 ^ k) (-k) hmpos := by
      change (Float.Model.pack
        (Float.ofNat n * Float.ofScientific 1 false 0).toModel.unpack.neg).unpack = _
      rw [hsize]
      exact unpack_pack _ hlow hm (by omega) (by omega)
    rw [withSign, if_pos rfl, ofFloat_eq, hneg, Binary.ofUnpacked, isMinus]

/-- A positive number of at most fifty-three bits has fifty-three with zeros behind. -/
theorem exists_scale {n : Nat} (hpos : 0 < n) (hlt : n < 2 ^ 53) :
    ∃ k ≤ 52, 2 ^ 52 ≤ n * 2 ^ k ∧ n * 2 ^ k < 2 ^ 53 := by
  have hn : n ≠ 0 := Nat.ne_of_gt hpos
  have hlog : n.log2 ≤ 52 := Nat.lt_succ_iff.mp ((Nat.log2_lt hn).mpr hlt)
  refine ⟨52 - n.log2, Nat.sub_le 52 _, ?_, ?_⟩
  · have hself := Nat.mul_le_mul_right (2 ^ (52 - n.log2)) (Nat.log2_self_le hn)
    rwa [← Nat.pow_add, Nat.add_sub_cancel' hlog] at hself
  · have hself := Nat.mul_lt_mul_of_pos_right (Nat.lt_log2_self (n := n))
      (Nat.two_pow_pos (52 - n.log2))
    rwa [← Nat.pow_add, show n.log2 + 1 + (52 - n.log2) = 53 by omega] at hself

theorem isInf_ofNat_mul_one {n : Nat} (hpos : 0 < n) (hlt : n < 2 ^ 53) :
    (Float.ofNat n * Float.ofScientific 1 false 0).isInf = false := by
  obtain ⟨k, hk, hlow, hhigh⟩ := exists_scale hpos hlt
  change (Float.ofNat n * Float.ofScientific 1 false 0).toModel.unpack.isInf = false
  rw [unpack_ofNat_mul_one hk hlow hhigh]
  rfl

/-- A finite double without a mantissa is a zero. -/
theorem eq_zero_of_mantissa {negative : Bool} {e : Int}
    (hparts : Binary.ofFloat x = .finite negative 0 e) : x = withSign negative 0.0 := by
  obtain rfl : e = -1074 := by
    have hrange := (range_of_finite hparts).2.2.2
    omega
  apply ofFloat_injective
  rw [hparts]
  cases negative <;> decide

/-- A finite double with a mantissa is no zero. -/
theorem beq_zero_of_mantissa {negative : Bool} {m : Nat} {e : Int} (hm : m ≠ 0)
    (hparts : Binary.ofFloat x = .finite negative m e) : (x == 0.0) = false := by
  rw [ofFloat_eq] at hparts
  change (x.toModel.unpack.compare (.zero .positive) == some .eq) = false
  cases hunpack : x.toModel.unpack with
  | finite s m' e' hpos => cases s <;> rfl
  | zero s =>
    rw [hunpack] at hparts
    cases hparts
    exact absurd rfl hm
  | notANumber | infinity s =>
    rw [hunpack] at hparts
    cases hparts

theorem isFinite_of_finite {negative : Bool} {m : Nat} {e : Int}
    (hparts : Binary.ofFloat x = .finite negative m e) : x.isFinite = true := by
  rw [ofFloat_eq] at hparts
  change x.toModel.unpack.isFinite = true
  cases hunpack : x.toModel.unpack with
  | finite | zero => rfl
  | notANumber | infinity s =>
    rw [hunpack] at hparts
    cases hparts

theorem wholePart_zero (e : Int) : wholePart 0 e = 0 := by
  cases e with
  | ofNat k => exact Nat.zero_mul _
  | negSucc k => exact Nat.zero_div _

theorem mantissa_of_wholePart {m : Nat} {e : Int} (hwhole : hasNoFraction m e = true)
    (hzero : wholePart m e = 0) : m = 0 := by
  cases e with
  | ofNat k => exact (Nat.mul_eq_zero.mp hzero).resolve_right (Nat.ne_of_gt (Nat.two_pow_pos k))
  | negSucc k =>
    have hexact : m % 2 ^ (k + 1) = 0 := of_decide_eq_true hwhole
    have hsize : m / 2 ^ (k + 1) = 0 := hzero
    rw [← Nat.div_add_mod m (2 ^ (k + 1)), hexact, hsize]
    rfl

end Doctest.Number
