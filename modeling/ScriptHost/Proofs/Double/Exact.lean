import Mathlib.Order.Compare
import ScriptHost.Double.Arithmetic
import ScriptHost.Proofs.Double.Units

/-!
This module contains what rounding does not change: magnitudes come back from their units, also with less
than half a distance more, and whole numbers of up to 53 bits are exact. Powers of two move a number to
another binade. A product and a sum are rounded once, and the order is that of the magnitudes.
-/

namespace ScriptHost.Double

variable {m k u e n : Nat}

theorem magnitudeBelow_of_unitsAt (hle : unitsAt m ≤ u) (hlt : u < unitsAt (m + 1))
    : magnitudeBelow u = m := by
  have hbelow := magnitudeBelow_le_iff.2 hlt
  have hadd := unitsAt_magnitudeBelow_add u
  have hmod := Nat.mod_lt u (Nat.two_pow_pos (scaleOf u))
  have hsucc := unitsAt_magnitudeBelow_succ u
  have habove : m < magnitudeBelow u + 1 := strictMono_unitsAt.lt_iff_lt.1 (by omega)
  omega

/-- The distance that rounding at a number of units works with is the one behind the magnitude below. -/
theorem two_pow_scaleOf (u : Nat) : 2 ^ scaleOf u = 2 ^ scale (magnitudeBelow u) := by
  have hsucc := unitsAt_magnitudeBelow_succ u
  have hscale := unitsAt_succ (magnitudeBelow u)
  omega

/-- Less than half a distance more is rounded away. -/
theorem nearestMagnitude_unitsAt_add (he : 2 * e < 2 ^ scale m)
    : nearestMagnitude (unitsAt m + e) 1 = m := by
  have hbelow : magnitudeBelow (unitsAt m + e) = m := by
    apply magnitudeBelow_of_unitsAt
    . omega
    . rw [unitsAt_succ]
      omega
  have hadd := unitsAt_magnitudeBelow_add (unitsAt m + e)
  rw [hbelow] at hadd
  have hrest : (unitsAt m + e) % 2 ^ scaleOf (unitsAt m + e) = e := by omega
  rw [nearestMagnitude_eq, hrest, two_pow_scaleOf, hbelow, if_pos he]

theorem nearestMagnitude_unitsAt (m : Nat) : nearestMagnitude (unitsAt m) 1 = m := by
  have h : 2 * 0 < 2 ^ scale m := Nat.two_pow_pos _
  exact nearestMagnitude_unitsAt_add h

theorem magnitudeBelow_le_nearestMagnitude (u : Nat) : magnitudeBelow u ≤ nearestMagnitude u 1 := by
  rw [nearestMagnitude_eq]
  split
  . omega
  . split
    . omega
    . split <;> omega

theorem nearestMagnitude_le (u : Nat) : nearestMagnitude u 1 ≤ magnitudeBelow u + 1 := by
  rw [nearestMagnitude_eq]
  split
  . omega
  . split
    . omega
    . split <;> omega

/-- Whatever has the units of a magnitude is not rounded below it. -/
theorem le_nearestMagnitude (h : unitsAt m ≤ u) : m ≤ nearestMagnitude u 1 := by
  apply Nat.le_trans _ (magnitudeBelow_le_nearestMagnitude u)
  cases m with
  | zero => omega
  | succ m =>
    have : ¬ magnitudeBelow u ≤ m := by
      rw [magnitudeBelow_le_iff]
      omega
    omega

/-! Other binades. -/

theorem unitsAt_add_binades (hm : binadeSize ≤ m) (k : Nat)
    : unitsAt (m + k * binadeSize) = unitsAt m * 2 ^ k := by
  have hadd := significand_add m
  have hq := significand_lt m
  have hs := scale_eq_zero_or_le m
  have hnormal : binadeSize ≤ significand m := by
    rcases hs with hs | hs
    . rw [hs] at hadd
      omega
    . exact hs
  have hplace : m + k * binadeSize = significand m + (scale m + k) * binadeSize := by
    rw [Nat.add_mul]
    omega
  rw [hplace, unitsAt_add_mul (by omega) (.inr hnormal), unitsAt_eq, Nat.pow_add, Nat.mul_assoc]

theorem scale_add_binades (hm : binadeSize ≤ m) (k : Nat)
    : scale (m + k * binadeSize) = scale m + k := by
  unfold scale binadeSize at *
  omega

theorem log2_mul_two_pow (hn : n ≠ 0) (k : Nat) : (n * 2 ^ k).log2 = n.log2 + k := by
  rw [Nat.log2_eq_iff (Nat.mul_ne_zero hn (Nat.two_pow_pos k).ne')]
  constructor
  . rw [Nat.pow_add]
    exact Nat.mul_le_mul_right _ (Nat.log2_self_le hn)
  . rw [Nat.add_right_comm, Nat.pow_add, Nat.mul_lt_mul_right (Nat.two_pow_pos k)]
    exact Nat.lt_log2_self

theorem scaleOf_mul_two_pow (hu : binadeSize ≤ u) (k : Nat) : scaleOf (u * 2 ^ k) = scaleOf u + k := by
  unfold binadeSize at hu
  have hne : u ≠ 0 := by omega
  have hlog : 52 ≤ u.log2 := (Nat.le_log2 hne).2 (by omega)
  unfold scaleOf
  rw [log2_mul_two_pow hne]
  omega

theorem magnitudeBelow_mul_two_pow (hu : binadeSize ≤ u) (k : Nat)
    : magnitudeBelow (u * 2 ^ k) = magnitudeBelow u + k * binadeSize := by
  unfold magnitudeBelow
  rw [scaleOf_mul_two_pow hu, Nat.pow_add, Nat.mul_div_mul_right _ _ (Nat.two_pow_pos k), Nat.add_mul]
  omega

theorem nearestMagnitude_mul_two_pow (hu : binadeSize ≤ u) (k : Nat)
    : nearestMagnitude (u * 2 ^ k) 1 = nearestMagnitude u 1 + k * binadeSize := by
  have hpos := Nat.two_pow_pos k
  have heven : (magnitudeBelow u + k * binadeSize) % 2 = magnitudeBelow u % 2 := by
    unfold binadeSize
    omega
  rw [nearestMagnitude_eq, nearestMagnitude_eq, magnitudeBelow_mul_two_pow hu, scaleOf_mul_two_pow hu,
    Nat.pow_add, Nat.mul_mod_mul_right, ← Nat.mul_assoc, heven]
  simp only [Nat.mul_lt_mul_right hpos]
  split
  . rfl
  . split
    . omega
    . split
      . rfl
      . omega

/-! Whole numbers. -/

/-- The magnitude of the double nearest to a whole number. -/
def wholeMagnitude (n : Nat) : Nat :=
  nearestMagnitude (n * one) 1

theorem ofNat_eq (n : Nat) : ofNat n = ofMagnitude false (min (wholeMagnitude n) infiniteMagnitude) :=
  rfl

theorem nearest_wholeMagnitude (n : Nat)
    : Nearest (n * one) (min (wholeMagnitude n) infiniteMagnitude) :=
  nearest_nearestMagnitude _

/-- The places behind the point of a number that is given in units. -/
def fractionPlaces : Nat := 1074

theorem one_eq : one = 2 ^ fractionPlaces :=
  Nat.one_shiftLeft fractionPlaces

theorem one_pos : 0 < one := by
  rw [one_eq]
  exact Nat.two_pow_pos _

theorem binadeSize_le_mul_one (hn : 0 < n) : binadeSize ≤ n * one := by
  calc binadeSize ≤ 2 ^ fractionPlaces := Nat.pow_le_pow_right (n := 2) (by decide) (by decide : 52 ≤ _)
    _ = one := one_eq.symm
    _ ≤ n * one := Nat.le_mul_of_pos_left _ hn

/-- The units of the powers of two. -/
theorem unitsAt_mul_binadeSize (k : Nat) : unitsAt ((k + 1023) * binadeSize) = 2 ^ k * one := by
  have hmagnitude : (k + 1023) * binadeSize = binadeSize + (k + 1022) * binadeSize := by
    unfold binadeSize
    omega
  have hplaces : 52 + (k + 1022) = k + fractionPlaces := Nat.add_left_comm 52 k 1022
  calc unitsAt ((k + 1023) * binadeSize) = binadeSize * 2 ^ (k + 1022) := by
        rw [hmagnitude, unitsAt_add_mul (by omega) (.inr (Nat.le_refl _))]
    _ = 2 ^ (52 + (k + 1022)) := by rw [Nat.pow_add 2 52]
    _ = 2 ^ k * one := by rw [hplaces, Nat.pow_add, one_eq]

theorem mul_one_lt_infinite (hk : k < 1024) (hn : n ≤ 2 ^ k) : n * one < unitsAt infiniteMagnitude :=
  calc n * one ≤ 2 ^ k * one := Nat.mul_le_mul_right _ hn
    _ = unitsAt ((k + 1023) * binadeSize) := (unitsAt_mul_binadeSize k).symm
    _ < unitsAt infiniteMagnitude := by
      apply strictMono_unitsAt
      unfold infiniteMagnitude binadeSize
      omega

/-- All whole numbers up to this one are doubles. -/
def exactBound : Nat := 2 ^ 53

theorem exists_unitsAt (hn : n ≤ exactBound) : ∃ m, unitsAt m = n * one := by
  by_cases hzero : n = 0
  . exact ⟨0, by rw [hzero, Nat.zero_mul, unitsAt_of_le (Nat.zero_le _)]⟩
  . have hlog : n.log2 ≤ 53 := by
      have hpow : 2 ^ n.log2 ≤ 2 ^ 53 := Nat.le_trans (Nat.log2_self_le hzero) hn
      exact (Nat.pow_le_pow_iff_right (by decide)).1 hpow
    -- the digits of the number fill a significand, or are its first power of two
    refine ⟨n * 2 ^ (52 - n.log2) + (fractionPlaces - (52 - n.log2)) * binadeSize, ?_⟩
    rw [unitsAt_add_mul, Nat.mul_assoc, ← Nat.pow_add, one_eq]
    . congr 2
      unfold fractionPlaces
      omega
    . by_cases hlast : n.log2 = 53
      . rw [hlast]
        exact Nat.le_trans (Nat.le_of_eq (Nat.mul_one n)) hn
      . calc n * 2 ^ (52 - n.log2) ≤ 2 ^ (n.log2 + 1) * 2 ^ (52 - n.log2) :=
            Nat.mul_le_mul_right _ (Nat.le_of_lt Nat.lt_log2_self)
          _ = 2 ^ 53 := by
            rw [← Nat.pow_add]
            congr 1
            omega
    . right
      calc binadeSize ≤ 2 ^ n.log2 * 2 ^ (52 - n.log2) := by
            rw [← Nat.pow_add]
            exact Nat.pow_le_pow_right (n := 2) (by decide) (by omega : 52 ≤ _)
        _ ≤ n * 2 ^ (52 - n.log2) := Nat.mul_le_mul_right _ (Nat.log2_self_le hzero)

theorem unitsAt_wholeMagnitude (hn : n ≤ exactBound) : unitsAt (wholeMagnitude n) = n * one := by
  obtain ⟨m, hm⟩ := exists_unitsAt hn
  unfold wholeMagnitude
  rw [← hm, nearestMagnitude_unitsAt]

theorem wholeMagnitude_zero : wholeMagnitude 0 = 0 := by
  apply strictMono_unitsAt.injective
  rw [unitsAt_wholeMagnitude (Nat.zero_le _), unitsAt_of_le (Nat.zero_le _), Nat.zero_mul]

theorem wholeMagnitude_two_pow (k : Nat) : wholeMagnitude (2 ^ k) = (k + 1023) * binadeSize := by
  unfold wholeMagnitude
  rw [← unitsAt_mul_binadeSize, nearestMagnitude_unitsAt]

theorem wholeMagnitude_mono (hn : n ≤ exactBound) (h : n ≤ k) : wholeMagnitude n ≤ wholeMagnitude k := by
  apply le_nearestMagnitude
  rw [unitsAt_wholeMagnitude hn]
  exact Nat.mul_le_mul_right _ h

theorem scale_mono (h : m ≤ k) : scale m ≤ scale k :=
  Nat.sub_le_sub_right (Nat.div_le_div_right h) 1

theorem scale_wholeMagnitude_two_pow (k : Nat) : scale (wholeMagnitude (2 ^ k)) = k + 1022 := by
  rw [wholeMagnitude_two_pow]
  unfold scale binadeSize
  omega

theorem wholeMagnitude_lt (hn : n ≤ exactBound) : wholeMagnitude n < infiniteMagnitude := by
  apply strictMono_unitsAt.lt_iff_lt.1
  rw [unitsAt_wholeMagnitude hn]
  exact mul_one_lt_infinite (show 53 < 1024 by decide) hn

theorem ofNat_of_le (hn : n ≤ exactBound) : ofNat n = ofMagnitude false (wholeMagnitude n) := by
  rw [ofNat_eq, Nat.min_eq_left (Nat.le_of_lt (wholeMagnitude_lt hn))]

theorem wholeMagnitude_pos (hn : 0 < n) : binadeSize ≤ wholeMagnitude n := by
  apply le_nearestMagnitude
  calc unitsAt binadeSize = binadeSize := unitsAt_of_le (Nat.le_mul_of_pos_left _ (by decide))
    _ ≤ n * one := binadeSize_le_mul_one hn

/-! Arithmetic on numbers that are not negative. -/

theorem lt_magnitudeCount (hm : m ≤ infiniteMagnitude) : m < magnitudeCount := by
  unfold magnitudeCount
  unfold infiniteMagnitude binadeSize at hm
  omega

theorem ofMagnitude_mul (hm : m < infiniteMagnitude) (hk : k < infiniteMagnitude)
    : (ofMagnitude false m).mul (ofMagnitude false k)
        =
      ofMagnitude false (min (nearestMagnitude (unitsAt m * unitsAt k) one) infiniteMagnitude) := by
  have hm' := lt_magnitudeCount (Nat.le_of_lt hm)
  have hk' := lt_magnitudeCount (Nat.le_of_lt hk)
  unfold mul withNumbers isNaN isInfinite units ofUnits
  rw [magnitude_ofMagnitude hm', magnitude_ofMagnitude hk', negative_ofMagnitude hm',
    negative_ofMagnitude hk']
  simp [Nat.lt_asymm hm, Nat.lt_asymm hk, Nat.ne_of_lt hm, Nat.ne_of_lt hk]

theorem ofMagnitude_add (hm : m < infiniteMagnitude) (hk : k < infiniteMagnitude)
    : (ofMagnitude false m).add (ofMagnitude false k)
        =
      ofMagnitude false (min (nearestMagnitude (unitsAt m + unitsAt k) 1) infiniteMagnitude) := by
  have hm' := lt_magnitudeCount (Nat.le_of_lt hm)
  have hk' := lt_magnitudeCount (Nat.le_of_lt hk)
  unfold add withNumbers addNumbers isNaN isInfinite value units ofUnits
  rw [magnitude_ofMagnitude hm', magnitude_ofMagnitude hk', negative_ofMagnitude hm',
    negative_ofMagnitude hk']
  have hsum : ((unitsAt m : Int) + unitsAt k).natAbs = unitsAt m + unitsAt k := by omega
  have hneg : ¬ (unitsAt m : Int) + unitsAt k < 0 := by omega
  simp [Nat.lt_asymm hm, Nat.lt_asymm hk, Nat.ne_of_lt hm, Nat.ne_of_lt hk, hsum, hneg]

theorem infinity_mul (hpos : 0 < k) (hk : k < infiniteMagnitude)
    : (infinity false).mul (ofMagnitude false k) = infinity false := by
  have hk' := lt_magnitudeCount (Nat.le_of_lt hk)
  have hi' := lt_magnitudeCount (Nat.le_refl infiniteMagnitude)
  have hne : infiniteMagnitude ≠ 0 := by decide
  unfold mul withNumbers isNaN isInfinite isZero
  rw [magnitude_ofMagnitude hk', negative_ofMagnitude hk']
  unfold infinity
  rw [magnitude_ofMagnitude hi', negative_ofMagnitude hi']
  simp [Nat.lt_asymm hk, hne, Nat.ne_of_gt hpos]

theorem infinity_add (hk : k < infiniteMagnitude)
    : (infinity false).add (ofMagnitude false k) = infinity false := by
  have hk' := lt_magnitudeCount (Nat.le_of_lt hk)
  have hi' := lt_magnitudeCount (Nat.le_refl infiniteMagnitude)
  unfold add withNumbers addNumbers isNaN isInfinite
  rw [magnitude_ofMagnitude hk', negative_ofMagnitude hk']
  unfold infinity
  rw [magnitude_ofMagnitude hi']
  simp [Nat.lt_asymm hk, Nat.ne_of_lt hk]

/-! The order. -/

variable {x y : Double}

theorem lt_iff : x.lt y ↔ ¬ x.isNaN ∧ ¬ y.isNaN ∧ x.place < y.place := by
  unfold lt compare?
  cases x.isNaN <;> cases y.isNaN <;> simp [compare_lt_iff_lt]

theorem le_iff : x.le y ↔ ¬ x.isNaN ∧ ¬ y.isNaN ∧ x.place ≤ y.place := by
  unfold le lt eq compare?
  cases x.isNaN <;> cases y.isNaN <;> simp [compare_lt_iff_lt, Int.le_iff_lt_or_eq]

/-- The numbers that are not below zero are those without a sign, and negative zero. -/
theorem isZero_or_of_zero_le (hle : (zero false).le x) : x.isZero ∨ ¬ x.negative := by
  have hzero : (zero false).place = 0 := by decide
  have hplace := (le_iff.1 hle).2.2
  rw [hzero] at hplace
  by_cases hnegative : x.negative
  . left
    unfold place at hplace
    rw [if_pos hnegative] at hplace
    unfold isZero
    rw [decide_eq_true_eq]
    omega
  . exact .inr hnegative

theorem place_of_sign (hsign : x.isZero ∨ ¬ x.negative) : x.place = x.magnitude := by
  unfold place
  split
  . next hnegative =>
    have hzero := hsign.resolve_right (not_not.2 hnegative)
    unfold isZero at hzero
    rw [decide_eq_true_eq] at hzero
    rw [hzero]
    rfl
  . rfl

theorem place_ofNat (hn : n ≤ exactBound) : (ofNat n).place = wholeMagnitude n := by
  have hlt := lt_magnitudeCount (Nat.le_of_lt (wholeMagnitude_lt hn))
  rw [ofNat_of_le hn, place_of_sign (.inr (by rw [negative_ofMagnitude hlt]; exact Bool.false_ne_true)),
    magnitude_ofMagnitude hlt]

theorem wholePart_lt (hsign : x.isZero ∨ ¬ x.negative) (hn : n ≤ exactBound)
    (hlt : x.lt (ofNat n)) : x.wholePart < n := by
  have hplace := (lt_iff.1 hlt).2.2
  rw [place_of_sign hsign, place_ofNat hn, Int.ofNat_lt] at hplace
  have hunits := strictMono_unitsAt hplace
  rw [unitsAt_wholeMagnitude hn] at hunits
  exact (Nat.div_lt_iff_lt_mul one_pos).2 hunits

end ScriptHost.Double
