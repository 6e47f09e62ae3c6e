import Mathlib.Data.Nat.Dist
import Mathlib.Order.Monotone.Basic
import ScriptHost.Double.Rounding

/-!
This module contains the units of magnitudes: they grow from each magnitude to the next one by a power of
two, which doubles with every binade. Rounding finds the magnitude that is nearest by its units.
-/

namespace ScriptHost.Double

variable {m k u q s : Nat}

/-- The units at the place `q` behind the binades whose distances are below `2 ^ s`. -/
theorem unitsAt_add_mul (hq : q ≤ 2 * binadeSize) (hs : s = 0 ∨ binadeSize ≤ q)
    : unitsAt (q + s * binadeSize) = q * 2 ^ s := by
  have hscale : ∀ t, t * binadeSize ≤ q + s * binadeSize → q + s * binadeSize < (t + 1) * binadeSize →
      (q + s * binadeSize) / binadeSize = t :=
    fun t hle hlt => Nat.div_eq_of_lt_le hle hlt
  unfold binadeSize at *
  unfold unitsAt significand scale
  unfold binadeSize
  rw [Nat.shiftLeft_eq]
  by_cases hsmall : q < 0x10000000000000
  . have hzero : s = 0 := by omega
    subst hzero
    simp only [Nat.zero_mul, Nat.add_zero, Nat.pow_zero, Nat.mul_one]
    rw [Nat.div_eq_of_lt hsmall]
    simp
  . by_cases hlast : q = 2 * 0x10000000000000
    . -- the first magnitude of the next binade
      rw [hscale (s + 2) (by omega) (by omega), show s + 2 - 1 = s + 1 by omega, Nat.pow_succ,
        ← Nat.mul_assoc, Nat.mul_right_comm]
      congr 1
      omega
    . rw [hscale (s + 1) (by omega) (by omega), show s + 1 - 1 = s by omega]
      congr 1
      omega

theorem unitsAt_of_le (hm : m ≤ 2 * binadeSize) : unitsAt m = m := by
  have hunits := unitsAt_add_mul (s := 0) hm (.inl rfl)
  rw [Nat.zero_mul, Nat.add_zero, Nat.pow_zero, Nat.mul_one] at hunits
  exact hunits

theorem significand_add (m : Nat) : significand m + scale m * binadeSize = m := by
  unfold significand scale binadeSize
  omega

theorem significand_lt (m : Nat) : significand m < 2 * binadeSize := by
  unfold significand scale binadeSize
  omega

theorem scale_eq_zero_or_le (m : Nat) : scale m = 0 ∨ binadeSize ≤ significand m := by
  unfold significand scale binadeSize
  omega

theorem unitsAt_eq (m : Nat) : unitsAt m = significand m * 2 ^ scale m := by
  unfold unitsAt
  rw [Nat.shiftLeft_eq]

theorem unitsAt_succ (m : Nat) : unitsAt (m + 1) = unitsAt m + 2 ^ scale m := by
  have hq := significand_lt m
  have hs := scale_eq_zero_or_le m
  have hm : m + 1 = significand m + 1 + scale m * binadeSize := by
    have := significand_add m
    omega
  rw [hm, unitsAt_add_mul (by omega) (by omega), unitsAt_eq, Nat.succ_mul]

theorem strictMono_unitsAt : StrictMono unitsAt := by
  apply strictMono_nat_of_lt_succ
  intro m
  rw [unitsAt_succ]
  exact Nat.lt_add_of_pos_right (Nat.two_pow_pos _)

/-! Rounding to the places of a binade. -/

theorem div_scaleOf (u : Nat)
    : u / 2 ^ scaleOf u < 2 * binadeSize ∧ (scaleOf u = 0 ∨ binadeSize ≤ u / 2 ^ scaleOf u) := by
  constructor
  . rw [Nat.div_lt_iff_lt_mul (Nat.two_pow_pos _)]
    calc u < 2 ^ (u.log2 + 1) := Nat.lt_log2_self
      _ ≤ 2 ^ (53 + scaleOf u) := Nat.pow_le_pow_right (by decide) (by unfold scaleOf; omega)
      _ = 2 * binadeSize * 2 ^ scaleOf u := by rw [Nat.pow_add]; rfl
  . by_cases hlog : u.log2 ≤ 52
    . left
      unfold scaleOf
      omega
    . right
      have hu : u ≠ 0 := by
        rintro rfl
        exact hlog (by decide)
      rw [Nat.le_div_iff_mul_le (Nat.two_pow_pos _)]
      calc binadeSize * 2 ^ scaleOf u = 2 ^ (52 + scaleOf u) := by rw [Nat.pow_add]
        _ = 2 ^ u.log2 := by
          congr 1
          unfold scaleOf
          omega
        _ ≤ u := Nat.log2_self_le hu

/-- The largest magnitude that does not have more than `u` units. -/
def magnitudeBelow (u : Nat) : Nat :=
  u / 2 ^ scaleOf u + scaleOf u * binadeSize

theorem unitsAt_magnitudeBelow (u : Nat)
    : unitsAt (magnitudeBelow u) = u / 2 ^ scaleOf u * 2 ^ scaleOf u := by
  obtain ⟨hlt, hs⟩ := div_scaleOf u
  exact unitsAt_add_mul (Nat.le_of_lt hlt) hs

theorem unitsAt_magnitudeBelow_succ (u : Nat)
    : unitsAt (magnitudeBelow u + 1) = unitsAt (magnitudeBelow u) + 2 ^ scaleOf u := by
  obtain ⟨hlt, hs⟩ := div_scaleOf u
  have hplace : magnitudeBelow u + 1 = u / 2 ^ scaleOf u + 1 + scaleOf u * binadeSize := by
    unfold magnitudeBelow
    omega
  rw [hplace, unitsAt_add_mul (by omega) (by omega), unitsAt_magnitudeBelow, Nat.succ_mul]

theorem unitsAt_magnitudeBelow_add (u : Nat)
    : unitsAt (magnitudeBelow u) + u % 2 ^ scaleOf u = u := by
  rw [unitsAt_magnitudeBelow, Nat.mul_comm]
  exact Nat.div_add_mod u _

theorem magnitudeBelow_le_iff : magnitudeBelow u ≤ m ↔ u < unitsAt (m + 1) := by
  have hbelow := unitsAt_magnitudeBelow_add u
  have hmod := Nat.mod_lt u (Nat.two_pow_pos (scaleOf u))
  have hsucc := unitsAt_magnitudeBelow_succ u
  constructor
  . intro hle
    have := strictMono_unitsAt.monotone (show magnitudeBelow u + 1 ≤ m + 1 by omega)
    omega
  . intro hlt
    have hltm : magnitudeBelow u < m + 1 := strictMono_unitsAt.lt_iff_lt.1 (by omega)
    omega

/-- The units that are left over at the magnitude below decide. -/
theorem nearestMagnitude_eq (u : Nat)
    : nearestMagnitude u 1
        =
      if 2 * (u % 2 ^ scaleOf u) < 2 ^ scaleOf u then magnitudeBelow u
      else if 2 ^ scaleOf u < 2 * (u % 2 ^ scaleOf u) then magnitudeBelow u + 1
      else if magnitudeBelow u % 2 = 0 then magnitudeBelow u
      else magnitudeBelow u + 1 := by
  have heven : magnitudeBelow u % 2 = u / 2 ^ scaleOf u % 2 := by
    unfold magnitudeBelow binadeSize
    omega
  unfold nearestMagnitude roundHalfEven
  dsimp only
  rw [Nat.div_one, Nat.one_shiftLeft, heven]
  unfold magnitudeBelow
  split
  . rfl
  . split
    . omega
    . split
      . rfl
      . omega

/-- A common factor of the units and of what they are divided by makes no difference. -/
theorem nearestMagnitude_mul {d : Nat} (hd : 0 < d) (u : Nat)
    : nearestMagnitude (u * d) d = nearestMagnitude u 1 := by
  unfold nearestMagnitude roundHalfEven
  simp only [Nat.mul_comm u, Nat.mul_div_cancel_left u hd, Nat.div_one, Nat.shiftLeft_eq, Nat.one_mul,
    Nat.mul_div_mul_left _ _ hd, Nat.mul_mod_mul_left, Nat.mul_left_comm 2 d, Nat.mul_lt_mul_left hd]

/--
Of all magnitudes up to the infinite one, `m` is the one nearest to `u` units, and the even one if two are
equally near. The infinite one takes part with the units of its place.
-/
structure Nearest (u m : Nat) : Prop where
  le : m ≤ infiniteMagnitude
  near : ∀ k ≤ infiniteMagnitude, k ≠ m →
    Nat.dist (unitsAt m) u < Nat.dist (unitsAt k) u ∨
    (Nat.dist (unitsAt m) u = Nat.dist (unitsAt k) u ∧ m % 2 = 0)

theorem Nearest.unique (hm : Nearest u m) (hk : Nearest u k) : m = k := by
  apply Classical.byContradiction
  intro hne
  have hmk := hm.near k hk.le (Ne.symm hne)
  have hkm := hk.near m hm.le hne
  -- two neighbours are not both even, and what lies between them would be nearer
  have hbetween : ∀ {a b : Nat}, a < b → b ≤ infiniteMagnitude → Nearest u a → a % 2 = 0 → b % 2 = 0 →
      Nat.dist (unitsAt a) u = Nat.dist (unitsAt b) u → False := by
    intro a b hab hb ha haeven hbeven hdist
    have hlow := strictMono_unitsAt (show a < a + 1 by omega)
    have hhigh := strictMono_unitsAt (show a + 1 < b by omega)
    have hnear := ha.near (a + 1) (by omega) (by omega)
    unfold Nat.dist at *
    omega
  have hdist : Nat.dist (unitsAt m) u = Nat.dist (unitsAt k) u ∧ m % 2 = 0 ∧ k % 2 = 0 := by omega
  rcases Nat.lt_or_gt_of_ne hne with hlt | hgt
  . exact hbetween hlt hk.le hm hdist.2.1 hdist.2.2 hdist.1
  . exact hbetween hgt hm.le hk hdist.2.2 hdist.2.1 hdist.1.symm

theorem nearest_nearestMagnitude (u : Nat)
    : Nearest u (min (nearestMagnitude u 1) infiniteMagnitude) := by
  have hbelow := unitsAt_magnitudeBelow_add u
  have hmod := Nat.mod_lt u (Nat.two_pow_pos (scaleOf u))
  have hsucc := unitsAt_magnitudeBelow_succ u
  have hmagnitude := nearestMagnitude_eq u
  generalize hl : magnitudeBelow u = l at *
  generalize u % 2 ^ scaleOf u = r at *
  generalize 2 ^ scaleOf u = gap at *
  -- every other magnitude lies on one side of the two neighbours
  have hside : ∀ k, unitsAt k ≤ unitsAt l ∨ unitsAt (l + 1) ≤ unitsAt k := by
    intro k
    rcases Nat.lt_or_ge l k with hlt | hge
    . exact .inr (strictMono_unitsAt.monotone hlt)
    . exact .inl (strictMono_unitsAt.monotone hge)
  have hinj : ∀ {a b}, unitsAt a = unitsAt b → a = b := fun h => strictMono_unitsAt.injective h
  by_cases hfinite : nearestMagnitude u 1 ≤ infiniteMagnitude
  . rw [Nat.min_eq_left hfinite]
    refine ⟨hfinite, ?_⟩
    intro k _ hk
    have := hside k
    have hnel : unitsAt k = unitsAt l → k = l := hinj
    have hnes : unitsAt k = unitsAt (l + 1) → k = l + 1 := hinj
    unfold Nat.dist
    split at hmagnitude
    . rw [hmagnitude] at hk ⊢
      omega
    . split at hmagnitude
      . rw [hmagnitude] at hk ⊢
        omega
      . split at hmagnitude
        . rw [hmagnitude] at hk ⊢
          omega
        . rw [hmagnitude] at hk ⊢
          omega
  . rw [Nat.min_eq_right (by omega)]
    refine ⟨Nat.le_refl _, ?_⟩
    intro k hle hk
    left
    have hlow : infiniteMagnitude ≤ l := by
      split at hmagnitude
      . omega
      . split at hmagnitude
        . omega
        . split at hmagnitude <;> omega
    have hmono := strictMono_unitsAt.monotone hlow
    have hlt := strictMono_unitsAt (Nat.lt_of_le_of_ne hle hk)
    unfold Nat.dist
    omega

end ScriptHost.Double
