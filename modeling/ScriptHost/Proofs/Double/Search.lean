import Mathlib.Algebra.Order.Field.Power
import Mathlib.Data.Rat.Cast.Order
import Mathlib.Tactic.Linarith
import ScriptHost.Proofs.Double.Fraction
import ScriptHost.Proofs.Double.Shortest

/-!
This module contains the search for the shortest decimal: it finds one, because its last grid is so fine that
the multiple below a magnitude is read as this magnitude. The power of ten of the first grid is estimated from
a power of two.
-/

namespace ScriptHost.Double

variable {m c : Nat} {p x : Int}

/-- The estimate of a power of two by a power of ten is at most one power of two too high. -/
theorem ten_zpow_le_two_zpow {a b : Nat} (hb : 0 < b) (hlow : 2 ^ b ≤ 10 ^ a) (hhigh : 10 ^ a ≤ 2 ^ (b + 1))
    (hx : x ≤ b)
    : (10 : ℚ) ^ (x * a / b) ≤ 2 ^ (x + 1) := by
  have hlow : (2 : ℚ) ^ (b : Int) ≤ 10 ^ (a : Int) := by exact_mod_cast hlow
  have hhigh : (10 : ℚ) ^ (a : Int) ≤ 2 ^ (b + 1 : Int) := by exact_mod_cast hhigh
  have hpow : (10 : ℚ) ^ (a * x) ≤ 2 ^ (b * (x + 1)) := by
    rw [zpow_mul]
    rcases Int.le_total 0 x with hpos | hneg
    . calc ((10 : ℚ) ^ (a : Int)) ^ x ≤ (2 ^ (b + 1 : Int)) ^ x := zpow_le_zpow_left₀ hpos (by positivity) hhigh
        _ = 2 ^ ((b + 1 : Int) * x) := (zpow_mul ..).symm
        _ ≤ 2 ^ (b * (x + 1)) := zpow_le_zpow_right₀ (by norm_num) (by rw [add_mul, mul_add]; omega)
    . have hinverse : ((2 : ℚ) ^ (b : Int)) ^ (-x) ≤ (10 ^ (a : Int)) ^ (-x) :=
        zpow_le_zpow_left₀ (by omega) (by positivity) hlow
      calc ((10 : ℚ) ^ (a : Int)) ^ x = ((10 ^ (a : Int)) ^ (-x))⁻¹ := by rw [zpow_neg, inv_inv]
        _ ≤ ((2 ^ (b : Int)) ^ (-x))⁻¹ := inv_anti₀ (by positivity) hinverse
        _ = 2 ^ ((b : Int) * x) := by rw [zpow_neg, inv_inv, zpow_mul]
        _ ≤ 2 ^ (b * (x + 1)) := zpow_le_zpow_right₀ (by norm_num) (by rw [mul_add]; omega)
  have hfloor : x * a / b * b ≤ a * x := by
    rw [Int.mul_comm a]
    exact Int.ediv_mul_le _ (by omega)
  refine le_of_pow_le_pow_left₀ hb.ne' (by positivity) ?_
  calc ((10 : ℚ) ^ (x * a / b)) ^ b = 10 ^ (x * a / b * b) := by rw [zpow_mul, zpow_natCast]
    _ ≤ 10 ^ (a * x) := zpow_le_zpow_right₀ (by norm_num) hfloor
    _ ≤ 2 ^ (b * (x + 1)) := hpow
    _ = (2 ^ (x + 1)) ^ b := by rw [Int.mul_comm, zpow_mul, zpow_natCast]

theorem gridStep_eq (p : Int) : ((gridStep p).1 : ℚ) = 10 ^ p * one * (gridStep p).2 := by
  unfold gridStep
  split
  . next hp =>
    obtain ⟨n, rfl⟩ := Int.eq_ofNat_of_zero_le hp
    simp
  . next hp =>
    obtain ⟨n, hn⟩ := Int.eq_ofNat_of_zero_le (show 0 ≤ -p by omega)
    obtain rfl : p = -(n : Int) := by omega
    have hne : (10 : ℚ) ^ n ≠ 0 := by positivity
    simp only [Int.neg_neg, Int.toNat_natCast, zpow_neg, zpow_natCast, Nat.pow_eq, Nat.cast_pow, Nat.cast_ofNat]
    rw [mul_right_comm, inv_mul_cancel₀ hne, one_mul]

theorem log2_unitsAt_lt (m : Nat) : (unitsAt m).log2 < 54 + scale (m - 1) := by
  have hscale : scale m ≤ scale (m - 1) + 1 := by
    unfold scale binadeSize
    omega
  by_cases hzero : unitsAt m = 0
  . rw [hzero, Nat.log2_zero]
    omega
  . rw [Nat.log2_lt hzero]
    calc unitsAt m = significand m * 2 ^ scale m := unitsAt_eq m
      _ < 2 ^ 53 * 2 ^ scale m := Nat.mul_lt_mul_of_pos_right (significand_lt m) (Nat.two_pow_pos _)
      _ = 2 ^ (53 + scale m) := (Nat.pow_add ..).symm
      _ ≤ 2 ^ (54 + scale (m - 1)) := Nat.pow_le_pow_right (by decide) (by omega)

/-- The steps of the last grid are at most half as long as the distance to the magnitude before. -/
theorem gridStep_last_le (hm : m < infiniteMagnitude)
    : 2 * (gridStep (coarsestGrid m - 19)).1 ≤ 2 ^ scale (m - 1) * (gridStep (coarsestGrid m - 19)).2 := by
  have hlog := log2_unitsAt_lt m
  have hfinite : scale (m - 1) < 2046 := by
    unfold scale
    unfold infiniteMagnitude binadeSize at *
    omega
  obtain ⟨x, hx⟩ : ∃ x : Int, x = (unitsAt m).log2 - 1074 := ⟨_, rfl⟩
  have hgrid : coarsestGrid m - 19 = x * (30103 : Nat) / (100000 : Nat) - 17 := by
    unfold coarsestGrid
    rw [← hx]
    push_cast
    omega
  have hten : (10 : ℚ) ^ (x * (30103 : Nat) / (100000 : Nat)) ≤ 2 ^ (x + 1) :=
    ten_zpow_le_two_zpow (by decide) (by decide +kernel) (by decide +kernel) (by omega)
  rw [hgrid]
  generalize x * (30103 : Nat) / (100000 : Nat) = f at hten
  have hone : (one : ℚ) = 2 ^ (fractionPlaces : Int) := by
    rw [one_eq, Nat.cast_pow, zpow_natCast, Nat.cast_ofNat]
  have hplaces : fractionPlaces = 1074 := rfl
  have hstep : (2 : ℚ) * (10 ^ (f - 17) * one) ≤ 2 ^ scale (m - 1) :=
    calc (2 : ℚ) * (10 ^ (f - 17) * one) = 2 * (10 ^ f / 10 ^ (17 : Int) * 2 ^ (fractionPlaces : Int)) := by
          rw [zpow_sub₀ (by norm_num), hone]
      _ ≤ 2 * (2 ^ (x + 1) / 2 ^ (56 : Int) * 2 ^ (fractionPlaces : Int)) := by
          gcongr
          norm_num
      _ = 2 ^ (1 + (x + 1 - 56 + fractionPlaces)) := by
          have htwo : (2 : ℚ) ≠ 0 := by norm_num
          rw [zpow_add₀ htwo 1, zpow_add₀ htwo (x + 1 - 56), zpow_sub₀ htwo (x + 1), zpow_one]
      _ ≤ 2 ^ (scale (m - 1) : Int) := zpow_le_zpow_right₀ (by norm_num) (by omega)
      _ = 2 ^ scale (m - 1) := zpow_natCast ..
  have hcast : (2 : ℚ) * (gridStep (f - 17)).1 ≤ 2 ^ scale (m - 1) * (gridStep (f - 17)).2 :=
    calc (2 : ℚ) * (gridStep (f - 17)).1 = 2 * (10 ^ (f - 17) * one) * (gridStep (f - 17)).2 := by
          rw [gridStep_eq]
          ring
      _ ≤ 2 ^ scale (m - 1) * (gridStep (f - 17)).2 := mul_le_mul_of_nonneg_right hstep (Nat.cast_nonneg _)
  exact_mod_cast hcast

/-- On a grid with such steps, the multiple below a magnitude is nearer to it than half the distance. -/
theorem readsAs_multiple_below (hm : 0 < m)
    (hstep : 2 * (gridStep p).1 ≤ 2 ^ scale (m - 1) * (gridStep p).2)
    : readsAs m (unitsAt m * (gridStep p).2 / (gridStep p).1) p := by
  obtain ⟨hnum, hden⟩ := gridStep_pos p
  have hpred : unitsAt m = unitsAt (m - 1) + 2 ^ scale (m - 1) := by
    have := unitsAt_succ (m - 1)
    rwa [Nat.sub_add_cancel hm] at this
  have hgap : unitsAt m * (gridStep p).2 =
      unitsAt (m - 1) * (gridStep p).2 + 2 ^ scale (m - 1) * (gridStep p).2 := by
    rw [← Nat.add_mul, ← hpred]
  have hsucc : unitsAt m * (gridStep p).2 < unitsAt (m + 1) * (gridStep p).2 :=
    Nat.mul_lt_mul_of_pos_right (strictMono_unitsAt (Nat.lt_succ_self m)) hden
  have hdivide := Nat.div_add_mod (unitsAt m * (gridStep p).2) (gridStep p).1
  have hrest := Nat.mod_lt (unitsAt m * (gridStep p).2) hnum
  rw [Nat.mul_comm (gridStep p).1] at hdivide
  rw [readsAs_iff]
  dsimp only
  omega

/-- The shortest decimal of a finite magnitude is read as this magnitude. -/
theorem shortest_spec (hpos : 0 < m) (hm : m < infiniteMagnitude)
    : ∃ c p, shortest m = (c, p) ∧ readsAs m c p ∧ -341 ≤ p := by
  have hstart : -322 ≤ coarsestGrid m := by
    unfold coarsestGrid
    omega
  unfold shortest
  dsimp only
  cases hfound : (List.range 20).findSome? fun (i : Nat) =>
      (onGrid? m (coarsestGrid m - i)).map fun c => (c, coarsestGrid m - i) with
  | none =>
    rw [List.findSome?_eq_none_iff] at hfound
    have hlast := hfound 19 (by simp)
    rw [Option.map_eq_none_iff] at hlast
    exact absurd hlast (onGrid?_ne_none (readsAs_multiple_below hpos (gridStep_last_le hm)))
  | some found =>
    obtain ⟨i, hi, hmap⟩ := List.exists_of_findSome?_eq_some hfound
    obtain ⟨c, hc, rfl⟩ := Option.map_eq_some_iff.1 hmap
    rw [List.mem_range] at hi
    exact ⟨c, coarsestGrid m - i, rfl, readsAs_of_onGrid? hc, by omega⟩

end ScriptHost.Double
