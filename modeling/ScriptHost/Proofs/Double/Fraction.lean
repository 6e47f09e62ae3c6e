import Mathlib.Tactic.Ring
import ScriptHost.Double.Decimal
import ScriptHost.Double.Shortest
import ScriptHost.Proofs.Double.Exact

/-!
This module contains the decimals that are read as a magnitude: those between the middles to its neighbours,
and the middles themselves if the magnitude is even.
-/

namespace ScriptHost.Double

variable {n d m c : Nat} {p : Int}

/-- A fraction lies at the magnitude below it or behind it, and the middle to the next one decides. -/
theorem nearestMagnitude_fraction (n : Nat) (hd : 0 < d)
    : ∃ l, unitsAt l * d ≤ n ∧ n < unitsAt (l + 1) * d ∧
        nearestMagnitude n d =
          if 2 * n < unitsAt l * d + unitsAt (l + 1) * d then l
          else if unitsAt l * d + unitsAt (l + 1) * d < 2 * n then l + 1
          else if l % 2 = 0 then l
          else l + 1 := by
  refine ⟨magnitudeBelow (n / d), ?_⟩
  have hstep : 0 < d * 2 ^ scaleOf (n / d) := Nat.mul_pos hd (Nat.two_pow_pos _)
  have hbelow : unitsAt (magnitudeBelow (n / d)) * d =
      d * 2 ^ scaleOf (n / d) * (n / (d * 2 ^ scaleOf (n / d))) := by
    rw [unitsAt_magnitudeBelow, Nat.div_div_eq_div_mul]
    ac_rfl
  have hnext : unitsAt (magnitudeBelow (n / d) + 1) * d =
      unitsAt (magnitudeBelow (n / d)) * d + d * 2 ^ scaleOf (n / d) := by
    rw [unitsAt_magnitudeBelow_succ, Nat.add_mul, Nat.mul_comm d]
  have hplace : magnitudeBelow (n / d) = n / (d * 2 ^ scaleOf (n / d)) + scaleOf (n / d) * binadeSize := by
    rw [← Nat.div_div_eq_div_mul]
    rfl
  have hround : nearestMagnitude n d =
      roundHalfEven n (d * 2 ^ scaleOf (n / d)) + scaleOf (n / d) * binadeSize := by
    rw [nearestMagnitude, Nat.shiftLeft_eq]
  have hdivide := Nat.div_add_mod n (d * 2 ^ scaleOf (n / d))
  have hrest := Nat.mod_lt n hstep
  rw [← hbelow] at hdivide
  have heven : magnitudeBelow (n / d) % 2 = n / (d * 2 ^ scaleOf (n / d)) % 2 := by
    unfold binadeSize at hplace
    omega
  refine ⟨by omega, by omega, ?_⟩
  rw [hround, heven, hnext]
  unfold roundHalfEven
  dsimp only
  split_ifs <;> omega

/-! Decimals. -/

theorem gridStep_pos (p : Int) : 0 < (gridStep p).1 ∧ 0 < (gridStep p).2 := by
  unfold gridStep
  split
  . exact ⟨Nat.mul_pos (Nat.pow_pos (by decide)) one_pos, Nat.one_pos⟩
  . exact ⟨one_pos, Nat.pow_pos (by decide)⟩

/-- The middles to the neighbours of a magnitude, of which only those of an even one belong to it. -/
theorem readsAs_iff
    : readsAs m c p ↔
      let point := 2 * (c * (gridStep p).1)
      let low := unitsAt (m - 1) * (gridStep p).2 + unitsAt m * (gridStep p).2
      let high := unitsAt m * (gridStep p).2 + unitsAt (m + 1) * (gridStep p).2
      low ≤ point ∧ point ≤ high ∧ (m % 2 = 1 → low < point ∧ point < high) := by
  unfold readsAs
  dsimp only
  rw [Nat.mul_assoc, Nat.add_mul, Nat.add_mul]
  split
  . rw [Bool.and_eq_true, decide_eq_true_eq, decide_eq_true_eq]
    omega
  . rw [Bool.and_eq_true, decide_eq_true_eq, decide_eq_true_eq]
    omega

theorem nearestMagnitude_of_readsAs (hm : 0 < m) (h : readsAs m c p)
    : nearestMagnitude (c * (gridStep p).1) (gridStep p).2 = m := by
  obtain ⟨hlow, hhigh, hodd⟩ := readsAs_iff.1 h
  have hd := (gridStep_pos p).2
  generalize c * (gridStep p).1 = n at *
  generalize (gridStep p).2 = d at *
  obtain ⟨l, hle, hlt, hround⟩ := nearestMagnitude_fraction n hd
  have hmul : ∀ {a b}, a < b → unitsAt a * d < unitsAt b * d :=
    fun hab => Nat.mul_lt_mul_of_pos_right (strictMono_unitsAt hab) hd
  have hmono : ∀ {a b}, a ≤ b → unitsAt a * d ≤ unitsAt b * d :=
    fun hab => Nat.mul_le_mul_right d (strictMono_unitsAt.monotone hab)
  have hpred := hmul (show m - 1 < m by omega)
  have hsucc := hmul (show m < m + 1 by omega)
  -- the fraction lies behind the magnitude or behind the one before it
  have hplace : l = m ∨ l + 1 = m := by
    rcases Nat.lt_or_ge m l with hgt | hge
    . have := hmono (show m + 1 ≤ l from hgt)
      omega
    . rcases Nat.lt_or_ge (l + 1) m with hgt | hge
      . have := hmono (show l + 1 ≤ m - 1 by omega)
        omega
      . omega
  rw [hround]
  rcases hplace with rfl | rfl
  . split_ifs <;> omega
  . rw [Nat.add_sub_cancel] at hlow hodd hpred
    split_ifs <;> omega

theorem unitsAt_infinite : unitsAt infiniteMagnitude = 2 ^ 1024 * one :=
  unitsAt_mul_binadeSize 1024

/-- What is read as a finite magnitude is not beyond the infinite one. -/
theorem le_infinite_of_readsAs (hm : m < infiniteMagnitude) (h : readsAs m c p)
    : c * (gridStep p).1 ≤ 2 ^ 1024 * one * (gridStep p).2 := by
  have hhigh := (readsAs_iff.1 h).2.1
  have hself := Nat.mul_le_mul_right (gridStep p).2 (strictMono_unitsAt.monotone (Nat.le_of_lt hm))
  have hnext := Nat.mul_le_mul_right (gridStep p).2 (strictMono_unitsAt.monotone (show m + 1 ≤ _ from hm))
  rw [unitsAt_infinite] at hself hnext
  omega

theorem half_le_of_readsAs (hpos : 0 < m) (h : readsAs m c p) : (gridStep p).2 ≤ 2 * (c * (gridStep p).1) := by
  have hlow := (readsAs_iff.1 h).1
  have hunits : 1 ≤ unitsAt m := Nat.lt_of_le_of_lt (Nat.zero_le _) (strictMono_unitsAt hpos)
  have := Nat.mul_le_mul_right (gridStep p).2 hunits
  omega

theorem digits_pos_of_readsAs (hpos : 0 < m) (h : readsAs m c p) : 0 < c := by
  have hle := half_le_of_readsAs hpos h
  have hd := (gridStep_pos p).2
  rw [Nat.pos_iff_ne_zero]
  rintro rfl
  omega

theorem exponent_le_of_readsAs (hpos : 0 < m) (hm : m < infiniteMagnitude) (h : readsAs m c p) : p ≤ 310 := by
  by_contra hp
  have hc := digits_pos_of_readsAs hpos h
  have hle := le_infinite_of_readsAs hm h
  rw [gridStep, if_pos (by omega), Nat.mul_one] at hle
  have hexponent : 311 ≤ p.toNat := by omega
  have hpow : 10 ^ 311 ≤ Nat.pow 10 p.toNat := pow_le_pow_right₀ (by decide) hexponent
  have hstep : 10 ^ 311 * one ≤ 2 ^ 1024 * one :=
    calc 10 ^ 311 * one ≤ Nat.pow 10 p.toNat * one := Nat.mul_le_mul_right _ hpow
      _ ≤ c * (Nat.pow 10 p.toNat * one) := Nat.le_mul_of_pos_left _ hc
      _ ≤ 2 ^ 1024 * one := hle
  exact absurd (Nat.le_of_mul_le_mul_right hstep one_pos) (by decide +kernel)

theorem le_exponent_of_readsAs (hpos : 0 < m) (h : readsAs m c p) : -(400 + c.log2 : Int) ≤ p := by
  by_contra hp
  have hle := half_le_of_readsAs hpos h
  rw [gridStep, if_neg (by omega)] at hle
  have hpow : 10 ^ (401 + c.log2) ≤ Nat.pow 10 (-p).toNat := Nat.pow_le_pow_right (by decide) (by omega)
  have hdigits : c < 2 ^ (c.log2 + 1) := Nat.lt_log2_self
  have hbound : 10 ^ (401 + c.log2) < 10 ^ (401 + c.log2) :=
    calc 10 ^ (401 + c.log2) ≤ 2 * (c * one) := Nat.le_trans hpow hle
      _ < 2 * (2 ^ (c.log2 + 1) * one) := by
        have := Nat.mul_lt_mul_of_pos_right hdigits one_pos
        omega
      _ = 4 * one * 2 ^ c.log2 := by
        rw [Nat.pow_succ]
        generalize one = u
        generalize 2 ^ c.log2 = v
        ring
      _ ≤ 10 ^ 401 * 10 ^ c.log2 := by
        have hfixed : 4 * one ≤ 10 ^ 401 := by decide +kernel
        exact Nat.mul_le_mul hfixed (Nat.pow_le_pow_left (by decide) _)
      _ = 10 ^ (401 + c.log2) := by rw [Nat.pow_add]
  exact absurd hbound (Nat.lt_irrefl _)

theorem toDouble_eq_ofUnits (hc : c ≠ 0) (hhigh : p ≤ 310) (hlow : -(400 + c.log2 : Int) ≤ p)
    : (Decimal.mk c p).toDouble = ofUnits false (c * (gridStep p).1) (gridStep p).2 := by
  unfold Decimal.toDouble gridStep
  dsimp only
  rw [if_neg hc, if_neg (by omega), if_neg (by omega)]
  split
  . rw [Nat.mul_assoc]
  . rfl

/-- A decimal that is read as a finite magnitude is this double. -/
theorem toDouble_of_readsAs (hpos : 0 < m) (hm : m < infiniteMagnitude) (h : readsAs m c p)
    : (Decimal.mk c p).toDouble = ofMagnitude false m := by
  have hc := digits_pos_of_readsAs hpos h
  rw [toDouble_eq_ofUnits hc.ne' (exponent_le_of_readsAs hpos hm h) (le_exponent_of_readsAs hpos h), ofUnits,
    nearestMagnitude_of_readsAs hpos h, Nat.min_eq_left (Nat.le_of_lt hm)]

end ScriptHost.Double
