import Doctest.Number.Layout
import Doctest.Proofs.Number.Doubles

/-!
# Shortest decimals of whole numbers

The shortest decimal of a double is sought on eighteen grids, each finer than the one before. Whole
numbers of at most fifty-three bits are their own shortest decimals, since no other whole number is
near enough. A larger one may be nearest to another whole number with fewer digits, which has at
least as many places before its point; and of numbers with more than sixteen places there is always
one.
-/

namespace Doctest.Number

variable {near : Neighbourhood} {tie : Tie} {n k m : Nat} {d : Decimal}

/-! ### Grids -/

/-- What a grid of multiples of a power of ten has at a number or just below it. -/
def Neighbourhood.floorOn (near : Neighbourhood) (exponent : Int) : Nat :=
  let (num, den) := timesPowerOfTen near.value near.den (-exponent)
  num / den

/-- What is found on a grid is one of the two members around the number. -/
theorem Neighbourhood.exists_of_onGrid? {exponent : Int}
    (h : near.onGrid? tie exponent = some d) :
    d.exponent = exponent ∧
      (d.digits = near.floorOn exponent ∨ d.digits = near.floorOn exponent + 1) := by
  rw [onGrid?] at h
  dsimp only at h
  split at h
  · cases h
    refine ⟨rfl, ?_⟩
    dsimp only
    split
    · exact .inr rfl
    · exact .inl rfl
  · cases h
    exact ⟨rfl, .inl rfl⟩
  · cases h
    exact ⟨rfl, .inr rfl⟩
  · cases h

/-- The first grid on which something is found decides. -/
theorem Neighbourhood.exists_of_coarsest? {fuel : Nat} {start : Int}
    (h : near.coarsest? tie fuel start = some d) :
    ∃ i, i ≤ start ∧ start < i + fuel ∧ near.onGrid? tie i = some d ∧
      ∀ j, i < j → j ≤ start → near.onGrid? tie j = none := by
  induction fuel generalizing start with
  | zero => cases h
  | succ fuel ih =>
    rw [coarsest?] at h
    split at h
    · next found hfound =>
      cases h
      exact ⟨start, le_rfl, by omega, hfound, fun j hlow hhigh => by omega⟩
    · next hnone =>
      obtain ⟨i, hle, hlt, hgrid, habove⟩ := ih h
      refine ⟨i, by omega, by omega, hgrid, fun j hlow hhigh => ?_⟩
      by_cases hj : j = start
      · rw [hj, hnone]
      · exact habove j hlow (by omega)

theorem Neighbourhood.coarsest?_isSome {fuel : Nat} {start i : Int} (hle : i ≤ start)
    (hlt : start < i + fuel) (h : (near.onGrid? tie i).isSome = true) :
    (near.coarsest? tie fuel start).isSome = true := by
  induction fuel generalizing start with
  | zero => omega
  | succ fuel ih =>
    rw [coarsest?]
    split
    · rfl
    · next hnone =>
      have hne : i ≠ start := by
        rintro rfl
        rw [hnone] at h
        cases h
      exact ih (by omega) (by omega)

/-! ### Whole numbers -/

/-- A neighbourhood is that of a whole number. -/
structure Neighbourhood.IsWhole (near : Neighbourhood) (n : Nat) : Prop where
  value : near.value = n * near.den
  den : 0 < near.den

/-- Whether a multiple of a power of ten belongs to a neighbourhood. -/
def Neighbourhood.holdsMultiple (near : Neighbourhood) (k n : Nat) : Bool :=
  near.holds (n * Nat.pow 10 k) 1

/-- What is found on a grid of whole numbers. -/
theorem Neighbourhood.exists_onGrid?_eq (near : Neighbourhood) (tie : Tie) (k : Nat) :
    ∃ upper : Bool, near.onGrid? tie k =
      if near.holdsMultiple k (near.floorOn k) then
        some ⟨if near.holdsMultiple k (near.floorOn k + 1) && upper then near.floorOn k + 1
          else near.floorOn k, k⟩
      else if near.holdsMultiple k (near.floorOn k + 1) then some ⟨near.floorOn k + 1, k⟩
      else none := by
  let scaled := timesPowerOfTen near.value near.den (-k)
  let above := scaled.1 % scaled.2
  refine ⟨tie.takesUpper (near.floorOn k) above (scaled.2 - above), ?_⟩
  rw [onGrid?]
  dsimp only
  split
  · next hfloor hceiling =>
    have hfloor : near.holdsMultiple k (near.floorOn k) = true := hfloor
    have hceiling : near.holdsMultiple k (near.floorOn k + 1) = true := hceiling
    rw [if_pos hfloor, hceiling, Bool.true_and]
    rfl
  · next hfloor hceiling =>
    have hfloor : near.holdsMultiple k (near.floorOn k) = true := hfloor
    have hceiling : near.holdsMultiple k (near.floorOn k + 1) = false := hceiling
    rw [if_pos hfloor, hceiling, Bool.false_and, if_neg Bool.false_ne_true]
    rfl
  · next hfloor hceiling =>
    have hfloor : near.holdsMultiple k (near.floorOn k) = false := hfloor
    have hceiling : near.holdsMultiple k (near.floorOn k + 1) = true := hceiling
    rw [hfloor, hceiling, if_neg Bool.false_ne_true, if_pos rfl]
    rfl
  · next hfloor hceiling =>
    have hfloor : near.holdsMultiple k (near.floorOn k) = false := hfloor
    have hceiling : near.holdsMultiple k (near.floorOn k + 1) = false := hceiling
    rw [hfloor, hceiling, if_neg Bool.false_ne_true, if_neg Bool.false_ne_true]

/-- What is found on a grid of whole numbers belongs to the neighbourhood. -/
theorem Neighbourhood.holdsMultiple_of_onGrid? (h : near.onGrid? tie k = some d) :
    near.holdsMultiple k d.digits = true := by
  obtain ⟨upper, hgrid⟩ := near.exists_onGrid?_eq tie k
  rw [hgrid] at h
  split_ifs at h with hfloor hupper hceiling
  · cases h
    exact (Bool.and_eq_true_iff.mp hupper).1
  · cases h
    exact hfloor
  · cases h
    exact hceiling

theorem Neighbourhood.IsWhole.floorOn (h : near.IsWhole n) (k : Nat) :
    near.floorOn k = n / 10 ^ k := by
  have hgrid : near.floorOn k = n * near.den / (near.den * 10 ^ k) := by
    rw [← h.value]
    cases k with
    | zero =>
      change near.value * 1 / near.den = near.value / (near.den * 1)
      rw [Nat.mul_one, Nat.mul_one]
    | succ k => rfl
  rw [hgrid, Nat.mul_comm n, Nat.mul_div_mul_left _ _ h.den]

/-- On a grid of whole numbers something is found if one of the members around the number belongs
to the neighbourhood. -/
theorem Neighbourhood.IsWhole.onGrid?_isSome_iff (h : near.IsWhole n) :
    (near.onGrid? tie k).isSome = true ↔
      near.holdsMultiple k (n / 10 ^ k) = true ∨ near.holdsMultiple k (n / 10 ^ k + 1) = true := by
  obtain ⟨upper, hgrid⟩ := near.exists_onGrid?_eq tie k
  rw [hgrid, ← h.floorOn k]
  split_ifs with hfloor hupper hceiling
  · exact iff_of_true rfl (.inl hfloor)
  · exact iff_of_true rfl (.inl hfloor)
  · exact iff_of_true rfl (.inr hceiling)
  · exact iff_of_false Bool.false_ne_true (not_or.mpr ⟨hfloor, hceiling⟩)

/-- Of the whole numbers just the number itself belongs to a neighbourhood. -/
def Neighbourhood.IsExact (near : Neighbourhood) (n : Nat) : Prop :=
  ∀ q, near.holds q 1 = true ↔ q = n

/-- Where no other whole number is near, a number is found as it is. -/
theorem Neighbourhood.IsWhole.coarsest?_exact (h : near.IsWhole n) (hexact : near.IsExact n)
    {start : Nat} {fuel : Nat} (hfuel : start < fuel) :
    ∃ d : Decimal, ∃ i : Nat, near.coarsest? tie fuel start = some d ∧ d.exponent = i ∧
      d.digits * 10 ^ i = n := by
  have hself : (near.onGrid? tie (0 : Nat)).isSome = true := by
    refine h.onGrid?_isSome_iff.mpr (.inl ((hexact _).mpr ?_))
    rw [Nat.pow_zero, Nat.div_one]
    exact Nat.mul_one n
  have hlt : (start : Int) < (0 : Nat) + fuel := by omega
  obtain ⟨d, hd⟩ := Option.isSome_iff_exists.mp
    (Neighbourhood.coarsest?_isSome (Int.natCast_nonneg start) hlt hself)
  obtain ⟨i, hle, -, hgrid, habove⟩ := Neighbourhood.exists_of_coarsest? hd
  -- The grid of all whole numbers would have been the first one.
  have hi : 0 ≤ i := by
    by_contra hneg
    rw [habove (0 : Nat) (by omega) (by omega)] at hself
    cases hself
  lift i to Nat using hi
  obtain ⟨hexponent, -⟩ := Neighbourhood.exists_of_onGrid? hgrid
  exact ⟨d, i, hd, hexponent, (hexact _).mp (Neighbourhood.holdsMultiple_of_onGrid? hgrid)⟩

theorem isWhole_ofBinary {e : Int} (hwhole : hasNoFraction m e = true) :
    (Neighbourhood.ofBinary m e).IsWhole (wholePart m e) := by
  cases e with
  | ofNat k =>
    refine ⟨?_, Nat.succ_pos 3⟩
    change 4 * m * 2 ^ k = m * 2 ^ k * 4
    ring
  | negSucc k =>
    have hexact : m / 2 ^ (k + 1) * 2 ^ (k + 1) = m :=
      Nat.div_mul_cancel (Nat.dvd_of_mod_eq_zero (of_decide_eq_true hwhole))
    refine ⟨?_, Nat.mul_pos (by decide) (Nat.two_pow_pos (k + 1))⟩
    change 4 * m * 1 = m / 2 ^ (k + 1) * (4 * 2 ^ (k + 1))
    calc 4 * m * 1
      _ = 4 * (m / 2 ^ (k + 1) * 2 ^ (k + 1)) := by rw [hexact, Nat.mul_one]
      _ = m / 2 ^ (k + 1) * (4 * 2 ^ (k + 1)) := by ring

theorem holds_eq (near : Neighbourhood) (q : Nat) :
    near.holds q 1 = if near.closed then
        decide (near.low ≤ q * near.den) && decide (q * near.den ≤ near.high)
      else decide (near.low < q * near.den) && decide (q * near.den < near.high) := by
  rw [Neighbourhood.holds, Nat.mul_one, Nat.mul_one]

/-- The ends of a neighbourhood on both sides of the number. -/
theorem ends_ofBinary (m : Nat) (e : Int) :
    ∃ below scale : Nat, 0 < scale ∧ (below = 1 ∧ m = 2 ^ 52 ∨ below = 2) ∧
      (Neighbourhood.ofBinary m e).low = (4 * m - below) * scale ∧
      (Neighbourhood.ofBinary m e).value = 4 * m * scale ∧
      (Neighbourhood.ofBinary m e).high = (4 * m + 2) * scale := by
  have hbelow : (if m = Nat.pow 2 52 ∧ e ≠ -1074 then 1 else 2) = 1 ∧ m = 2 ^ 52 ∨
      (if m = Nat.pow 2 52 ∧ e ≠ -1074 then 1 else 2) = 2 := by
    split
    · next h => exact .inl ⟨rfl, h.1⟩
    · exact .inr rfl
  cases e with
  | ofNat k => exact ⟨_, _, Nat.two_pow_pos k, hbelow, rfl, rfl, rfl⟩
  | negSucc k => exact ⟨_, 1, Nat.one_pos, hbelow, rfl, rfl, rfl⟩

/-- The neighbourhood of a number that a mantissa holds with zeros behind it. -/
theorem ofBinary_shifted (n k : Nat) :
    ∃ below : Nat, 0 < below ∧ below ≤ 2 ∧ Neighbourhood.ofBinary (n * 2 ^ k) (-k) =
      ⟨n * (4 * 2 ^ k) - below, n * (4 * 2 ^ k), n * (4 * 2 ^ k) + 2, 4 * 2 ^ k,
        n * 2 ^ k % 2 = 0⟩ := by
  refine ⟨if n * 2 ^ k = Nat.pow 2 52 ∧ -(k : Int) ≠ -1074 then 1 else 2, ?_, ?_, ?_⟩
  · split <;> decide
  · split <;> decide
  · have hvalue : 4 * (n * 2 ^ k) = n * (4 * 2 ^ k) := by ring
    cases k with
    | zero =>
      change Neighbourhood.mk ((4 * (n * 2 ^ 0) - _) * 1) (4 * (n * 2 ^ 0) * 1)
        ((4 * (n * 2 ^ 0) + 2) * 1) 4 _ = _
      rw [Nat.mul_one, Nat.mul_one, Nat.mul_one, hvalue]
      rfl
    | succ k =>
      change Neighbourhood.mk ((4 * (n * 2 ^ (k + 1)) - _) * 1) (4 * (n * 2 ^ (k + 1)) * 1)
        ((4 * (n * 2 ^ (k + 1)) + 2) * 1) (4 * 2 ^ (k + 1)) _ = _
      rw [Nat.mul_one, Nat.mul_one, Nat.mul_one, hvalue]

/-- No other whole number is near one of at most fifty-three bits. -/
theorem isExact_ofBinary (hpos : 0 < n) (k : Nat) :
    (Neighbourhood.ofBinary (n * 2 ^ k) (-k)).IsExact n := by
  obtain ⟨below, hbelow, hle, hnear⟩ := ofBinary_shifted n k
  have hden : 4 ≤ 4 * 2 ^ k := Nat.le_mul_of_pos_right 4 (Nat.two_pow_pos k)
  have hvalue : 4 ≤ n * (4 * 2 ^ k) := hden.trans (Nat.le_mul_of_pos_left _ hpos)
  intro q
  rw [hnear, holds_eq]
  dsimp only
  generalize 4 * 2 ^ k = den at *
  -- Another whole number is a unit away, and the ends are nearer.
  rcases lt_trichotomy q n with hless | rfl | hmore
  · have hfar : (q + 1) * den ≤ n * den := Nat.mul_le_mul_right den hless
    rw [Nat.add_mul, Nat.one_mul] at hfar
    simp only [hless.ne, iff_false]
    split <;> simp <;> omega
  · simp only [iff_true]
    split
    · simp
    · simp
      omega
  · have hfar : (n + 1) * den ≤ q * den := Nat.mul_le_mul_right den hmore
    rw [Nat.add_mul, Nat.one_mul] at hfar
    simp only [hmore.ne', iff_false]
    split <;> simp <;> omega

theorem pointPosition_of_isWhole (h : near.IsWhole n) (hpos : 0 < n) :
    pointPosition near.value near.den = (Nat.toDigits 10 n).length := by
  have hle : near.den ≤ near.value := by
    rw [h.value]
    exact Nat.le_mul_of_pos_left _ hpos
  rw [pointPosition, if_pos hle, h.value, Nat.mul_div_cancel n h.den]

/-- **A whole number of at most fifty-three bits is its own shortest decimal.** -/
theorem shortest_exact (tie : Tie) {e : Int} (hwhole : hasNoFraction m e = true)
    (hn : wholePart m e = n) (hpos : 0 < n) (hlt : n < 2 ^ 53) (hm : m < 2 ^ 53)
    (hrange : 2 ^ 52 ≤ m ∨ m < 2 ^ 52 ∧ e = -1074) :
    ∃ i : Nat, (shortest tie m e).exponent = i ∧ (shortest tie m e).digits * 10 ^ i = n := by
  have hown := isWhole_ofBinary hwhole
  rw [hn] at hown
  obtain ⟨k, -, rfl, rfl⟩ := exists_shift hwhole hn hpos hlt hm hrange
  have hplaces : (Nat.toDigits 10 n).length < 18 := by
    refine Nat.lt_succ_of_le ((Nat.length_toDigits_le_iff (by decide) (by decide)).mpr ?_)
    exact hlt.trans (by decide)
  obtain ⟨d, i, hd, hexponent, hdigits⟩ : ∃ d : Decimal, ∃ i : Nat,
      (Neighbourhood.ofBinary (n * 2 ^ k) (-k)).coarsest? tie 18 (Nat.toDigits 10 n).length =
        some d ∧ d.exponent = i ∧ d.digits * 10 ^ i = n :=
    hown.coarsest?_exact (isExact_ofBinary hpos k) hplaces
  have hshortest : shortest tie (n * 2 ^ k) (-k) = d := by
    rw [shortest, pointPosition_of_isWhole hown hpos, hd]
    rfl
  rw [hshortest]
  exact ⟨i, hexponent, hdigits⟩

/-- If neither of the members around the number belongs to a neighbourhood, it lies between them. -/
theorem Neighbourhood.IsWhole.width_le {low high : Nat} (h : near.IsWhole n)
    (hlow : near.low = low) (hhigh : near.high = high) (hbelow : low < near.value)
    (habove : near.value < high) (hnone : near.onGrid? tie k = none) :
    high ≤ low + 10 ^ k * near.den := by
  have hsome : ¬ (near.onGrid? tie k).isSome = true := by
    rw [hnone]
    exact Bool.false_ne_true
  rw [h.onGrid?_isSome_iff, not_or, holdsMultiple, holdsMultiple, holds_eq, holds_eq, hlow,
    hhigh] at hsome
  obtain ⟨hfloor, hceiling⟩ := hsome
  have hunit : (n / 10 ^ k + 1) * 10 ^ k * near.den =
      n / 10 ^ k * 10 ^ k * near.den + 10 ^ k * near.den := by ring
  have hdown : n / 10 ^ k * 10 ^ k * near.den ≤ near.value := by
    rw [h.value]
    exact Nat.mul_le_mul_right _ (Nat.div_mul_le_self n _)
  have hup : near.value < (n / 10 ^ k + 1) * 10 ^ k * near.den := by
    rw [h.value]
    refine Nat.mul_lt_mul_of_pos_right ?_ h.den
    rw [Nat.mul_comm]
    exact Nat.lt_mul_div_succ n (Nat.pow_pos (by decide))
  have hpow : Nat.pow 10 k = 10 ^ k := rfl
  rw [hpow] at hfloor hceiling
  generalize n / 10 ^ k * 10 ^ k * near.den = floor at *
  generalize (n / 10 ^ k + 1) * 10 ^ k * near.den = ceiling at *
  cases hclosed : near.closed <;> simp [hclosed] at hfloor hceiling <;> omega

/-- Seventeen places are enough: on the grid of so many there is a number that reads back. -/
theorem onGrid?_isSome {e : Int} (hwhole : hasNoFraction m e = true) (hm : m < 2 ^ 53)
    (hsize : 10 ^ (k + 16) ≤ wholePart m e) :
    ((Neighbourhood.ofBinary m e).onGrid? tie k).isSome = true := by
  obtain ⟨below, scale, hscale, hbelow, hlow, hvalue, hhigh⟩ := ends_ofBinary m e
  have hown := isWhole_ofBinary hwhole
  generalize Neighbourhood.ofBinary m e = near at *
  generalize wholePart m e = n at *
  have hn : 0 < n := (Nat.pow_pos (by decide)).trans_le hsize
  have hmpos : 0 < m := by
    have hpos : 0 < near.value := hown.value ▸ Nat.mul_pos hn hown.den
    rw [hvalue] at hpos
    have := Nat.pos_of_mul_pos_right hpos
    omega
  by_contra hsome
  have hnone : near.onGrid? tie k = none := by simpa using hsome
  -- The neighbourhood would lie between two members of the grid, whose distance is too small.
  have hbetween := hown.width_le hlow hhigh
    (by rw [hvalue]; exact Nat.mul_lt_mul_of_pos_right (by omega) hscale)
    (by rw [hvalue]; exact Nat.mul_lt_mul_of_pos_right (by omega) hscale) hnone
  have hwidth : (below + 2) * scale ≤ 10 ^ k * near.den := by
    have hends : (4 * m + 2) * scale = (4 * m - below) * scale + (below + 2) * scale := by
      rw [← Nat.add_mul]
      congr 1
      omega
    omega
  have hwide : 10 ^ 16 * (below + 2) ≤ 4 * m := by
    refine Nat.le_of_mul_le_mul_right ?_ hscale
    calc 10 ^ 16 * (below + 2) * scale
      _ = 10 ^ 16 * ((below + 2) * scale) := Nat.mul_assoc _ _ _
      _ ≤ 10 ^ 16 * (10 ^ k * near.den) := Nat.mul_le_mul_left _ hwidth
      _ = 10 ^ (k + 16) * near.den := by ring
      _ ≤ n * near.den := Nat.mul_le_mul_right _ hsize
      _ = 4 * m * scale := by rw [← hown.value, hvalue]
  rcases hbelow with ⟨rfl, rfl⟩ | rfl <;> omega

theorem pow_le_of_length {places : Nat} (hpos : 0 < places)
    (h : places < (Nat.toDigits 10 n).length) : 10 ^ places ≤ n := by
  by_contra hlt
  exact absurd ((Nat.length_toDigits_le_iff (by decide) hpos).mpr (not_le.mp hlt)) (not_le.mpr h)

/-- What is found for a whole number has no fewer places than the number. -/
theorem Neighbourhood.IsWhole.le_length (h : near.IsWhole n) (hd : near.onGrid? tie k = some d) :
    (Nat.toDigits 10 n).length ≤ (Nat.toDigits 10 d.digits).length + k := by
  obtain ⟨-, hdigits⟩ := Neighbourhood.exists_of_onGrid? hd
  rw [h.floorOn k] at hdigits
  have hsome : 0 < (Nat.toDigits 10 d.digits).length := Nat.length_toDigits_pos
  by_contra hless
  have hlow : 10 ^ ((Nat.toDigits 10 d.digits).length + k) ≤ n :=
    pow_le_of_length (Nat.add_pos_left hsome k) (not_le.mp hless)
  have hfloor : 10 ^ (Nat.toDigits 10 d.digits).length ≤ n / 10 ^ k := by
    rw [Nat.le_div_iff_mul_le (Nat.pow_pos (by decide)), ← Nat.pow_add]
    exact hlow
  have hown : d.digits < 10 ^ (Nat.toDigits 10 d.digits).length :=
    (Nat.length_toDigits_le_iff (by decide) hsome).mp le_rfl
  omega

/-- The decimal of a whole number with more than sixteen places has no fewer places, of which at
most seventeen are no zeros. -/
theorem shortest_places (tie : Tie) {e : Int} (hwhole : hasNoFraction m e = true)
    (hn : wholePart m e = n) (hm : m < 2 ^ 53) (hplaces : 16 < (Nat.toDigits 10 n).length) :
    ∃ i : Nat, (shortest tie m e).exponent = i ∧ (Nat.toDigits 10 n).length ≤ i + 17 ∧
      (Nat.toDigits 10 n).length ≤ (Nat.toDigits 10 (shortest tie m e).digits).length + i := by
  subst hn
  have hown := isWhole_ofBinary hwhole
  have hstart := pow_le_of_length (by decide) hplaces
  have hstart := pointPosition_of_isWhole hown ((Nat.pow_pos (by decide)).trans_le hstart)
  obtain ⟨k, hk⟩ : ∃ k, (Nat.toDigits 10 (wholePart m e)).length = k + 17 :=
    ⟨(Nat.toDigits 10 (wholePart m e)).length - 17, by omega⟩
  rw [hk] at hstart
  have hsize : 10 ^ (k + 16) ≤ wholePart m e := pow_le_of_length (by omega) (by omega)
  have hgrid : ((Neighbourhood.ofBinary m e).onGrid? tie k).isSome = true :=
    onGrid?_isSome hwhole hm hsize
  have hsome : ((Neighbourhood.ofBinary m e).coarsest? tie 18 (k + 17 : Nat)).isSome = true :=
    Neighbourhood.coarsest?_isSome (by omega) (by omega) hgrid
  obtain ⟨d, hd⟩ := Option.isSome_iff_exists.mp hsome
  have hshortest : shortest tie m e = d := by
    rw [shortest, hstart, hd]
    rfl
  rw [hshortest, hk]
  obtain ⟨i, -, hlow, hfound, -⟩ := Neighbourhood.exists_of_coarsest? hd
  lift i to Nat using by omega
  have hlength := hown.le_length hfound
  rw [hk] at hlength
  exact ⟨i, (Neighbourhood.exists_of_onGrid? hfound).1, by omega, hlength⟩

end Doctest.Number
