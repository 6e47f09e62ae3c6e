import ScriptHost.Double.Text
import ScriptHost.Proofs.Double.Exact

/-!
This module contains the texts of whole numbers. Below `2 ^ 32` the doubles lie so close together that a
decimal without a fraction is read as a whole number only if it is that number. So its shortest decimal
is the number itself, cut at some of its last zeros, and its text is its digits.
-/

namespace ScriptHost.Double

variable {n c k m : Nat}

/-- The whole numbers that are looked at are below this one. -/
def wordBound : Nat := 2 ^ 32

theorem le_exactBound (hn : n < wordBound) : n ≤ exactBound :=
  Nat.le_trans (Nat.le_of_lt hn) (by decide)

theorem two_pow_scale_lt (hn : n < wordBound) : 2 ^ scale (wholeMagnitude n) < one := by
  have hscale := scale_mono (wholeMagnitude_mono (le_exactBound hn) (Nat.le_of_lt hn))
  have hword : scale (wholeMagnitude wordBound) < fractionPlaces := by
    unfold wordBound fractionPlaces
    rw [scale_wholeMagnitude_two_pow]
    decide
  calc 2 ^ scale (wholeMagnitude n) < 2 ^ fractionPlaces :=
        Nat.pow_lt_pow_right (by decide) (Nat.lt_of_le_of_lt hscale hword)
    _ = one := one_eq.symm

/-- The units of the neighbours of a whole number are less than one away. -/
theorem unitsAt_neighbours (hpos : 0 < n) (hn : n < wordBound)
    : n * one < unitsAt (wholeMagnitude n - 1) + one ∧ unitsAt (wholeMagnitude n + 1) < n * one + one := by
  have hscale := two_pow_scale_lt hn
  have hunits := unitsAt_wholeMagnitude (le_exactBound hn)
  have hnormal := wholeMagnitude_pos hpos
  constructor
  . have hpred : wholeMagnitude n - 1 + 1 = wholeMagnitude n := by
      unfold binadeSize at hnormal
      omega
    have hsucc := unitsAt_succ (wholeMagnitude n - 1)
    have hle : 2 ^ scale (wholeMagnitude n - 1) ≤ 2 ^ scale (wholeMagnitude n) :=
      Nat.pow_le_pow_right (by decide) (scale_mono (Nat.sub_le _ _))
    rw [hpred] at hsucc
    omega
  . have hsucc := unitsAt_succ (wholeMagnitude n)
    omega

/-! The decimals without a fraction that are read as a whole number. -/

theorem gridStep_of_nat (k : Nat) : gridStep k = (10 ^ k * one, 1) := by
  unfold gridStep
  simp

theorem eq_of_readsAs (hpos : 0 < n) (hn : n < wordBound) (h : readsAs (wholeMagnitude n) c k)
    : c * 10 ^ k = n := by
  have hunits := unitsAt_wholeMagnitude (le_exactBound hn)
  obtain ⟨hlow, hhigh⟩ := unitsAt_neighbours hpos hn
  have hbetween : unitsAt (wholeMagnitude n - 1) + unitsAt (wholeMagnitude n) ≤ 2 * (c * 10 ^ k * one) ∧
      2 * (c * 10 ^ k * one) ≤ unitsAt (wholeMagnitude n) + unitsAt (wholeMagnitude n + 1) := by
    unfold readsAs at h
    rw [gridStep_of_nat] at h
    simp only [Nat.mul_one, Nat.mul_assoc] at h ⊢
    split at h
    . simpa using h
    . rw [Bool.and_eq_true, decide_eq_true_eq, decide_eq_true_eq] at h
      omega
  -- the numbers differ by less than one
  have hle : c * 10 ^ k * one < (n + 1) * one := by
    rw [Nat.succ_mul]
    omega
  have hge : n * one < (c * 10 ^ k + 1) * one := by
    rw [Nat.succ_mul]
    omega
  have h1 := Nat.lt_of_mul_lt_mul_right hle
  have h2 := Nat.lt_of_mul_lt_mul_right hge
  omega

theorem gridStep_zero : gridStep (0 : Nat) = (one, 1) := by
  rw [gridStep_of_nat, Nat.pow_zero, Nat.one_mul]

theorem readsAs_self (hpos : 0 < n) (hn : n < wordBound) : readsAs (wholeMagnitude n) n (0 : Nat) := by
  have hunits := unitsAt_wholeMagnitude (le_exactBound hn)
  have hnormal := wholeMagnitude_pos hpos
  have hlow := strictMono_unitsAt (show wholeMagnitude n - 1 < wholeMagnitude n by
    unfold binadeSize at hnormal
    omega)
  have hhigh := strictMono_unitsAt (show wholeMagnitude n < wholeMagnitude n + 1 by omega)
  unfold readsAs
  rw [gridStep_zero]
  simp only [Nat.mul_one, Nat.mul_assoc]
  split
  . rw [Bool.and_eq_true, decide_eq_true_eq, decide_eq_true_eq]
    omega
  . rw [Bool.and_eq_true, decide_eq_true_eq, decide_eq_true_eq]
    omega

theorem readsAs_of_onGrid? {p : Int} (h : onGrid? m p = some c) : readsAs m c p := by
  unfold onGrid? at h
  dsimp only at h
  split at h
  . next h1 h2 =>
    split at h
    . exact Option.some.inj h ▸ h2
    . exact Option.some.inj h ▸ h1
  . next h1 h2 => exact Option.some.inj h ▸ h1
  . next h1 h2 => exact Option.some.inj h ▸ h2
  . cases h

theorem onGrid?_ne_none {p : Int}
    (h : readsAs m (unitsAt m * (gridStep p).2 / (gridStep p).1) p) : onGrid? m p ≠ none := by
  unfold onGrid?
  dsimp only
  rw [h]
  split
  . split <;> exact Option.some_ne_none _
  . exact Option.some_ne_none _
  . exact Option.some_ne_none _
  . next hnone _ => cases hnone

theorem onGrid?_zero (hpos : 0 < n) (hn : n < wordBound)
    : onGrid? (wholeMagnitude n) (0 : Nat) ≠ none := by
  apply onGrid?_ne_none
  rw [gridStep_zero, unitsAt_wholeMagnitude (le_exactBound hn), Nat.mul_one, Nat.mul_div_cancel _ one_pos]
  exact readsAs_self hpos hn

/-! The search. -/

theorem coarsestGrid_wholeMagnitude (hpos : 0 < n) (hn : n < wordBound)
    : ∃ k < 20, coarsestGrid (wholeMagnitude n) = (k : Nat) := by
  have hlog : (n * one).log2 = n.log2 + 1074 := by
    rw [one_eq, log2_mul_two_pow (by omega)]
    rfl
  have hlt : n.log2 < 32 := (Nat.log2_lt (by omega)).2 hn
  unfold coarsestGrid
  rw [unitsAt_wholeMagnitude (le_exactBound hn), hlog]
  refine ⟨(n.log2 * 30103 / 100000 + 2), by omega, by omega⟩

/-- The search finds a grid on which the number lies. It tries the coarse ones first. -/
theorem shortest_wholeMagnitude (hpos : 0 < n) (hn : n < wordBound)
    : ∃ c k : Nat, shortest (wholeMagnitude n) = (c, (k : Int)) ∧ c * 10 ^ k = n := by
  obtain ⟨start, hstart, hgrid⟩ := coarsestGrid_wholeMagnitude hpos hn
  have hsplit : List.range 20 = List.range (start + 1) ++ (List.range (19 - start)).map (start + 1 + ·) := by
    rw [← List.range_add]
    congr 1
    omega
  unfold shortest
  dsimp only
  rw [hgrid, hsplit, List.findSome?_append]
  cases hfound : (List.range (start + 1)).findSome? fun (i : Nat) =>
      (onGrid? (wholeMagnitude n) ((start : Int) - i)).map fun c => (c, (start : Int) - i) with
  | none =>
    rw [List.findSome?_eq_none_iff] at hfound
    have hlast := hfound start (List.mem_range.2 (Nat.lt_succ_self start))
    rw [Option.map_eq_none_iff, Int.sub_self] at hlast
    exact absurd hlast (onGrid?_zero hpos hn)
  | some found =>
    obtain ⟨i, hi, hmap⟩ := List.exists_of_findSome?_eq_some hfound
    rw [List.mem_range] at hi
    obtain ⟨c, hc, rfl⟩ := Option.map_eq_some_iff.1 hmap
    have hp : (start : Int) - i = (start - i : Nat) := by omega
    rw [hp] at hc ⊢
    exact ⟨c, start - i, rfl, eq_of_readsAs hpos hn (readsAs_of_onGrid? hc)⟩

/-! The text. -/

theorem toList_pushn (s : String) (c : Char) (k : Nat)
    : (s.pushn c k).toList = s.toList ++ List.replicate k c := by
  rw [String.pushn_eq_repeat_push]
  induction k with
  | zero => simp [Nat.repeat]
  | succ k ih =>
    rw [Nat.repeat, String.toList_push, ih, List.append_assoc, ← List.replicate_succ']

theorem toDigits_mul_ten_pow (hpos : 0 < c) (k : Nat)
    : Nat.toDigits 10 (c * 10 ^ k) = Nat.toDigits 10 c ++ List.replicate k '0' := by
  induction k with
  | zero => simp
  | succ k ih =>
    have hdigit := Nat.toDigits_append_toDigits (b := 10) (n := c * 10 ^ k) (d := 0) (by decide)
      (Nat.mul_pos hpos (Nat.pow_pos (by decide))) (by decide)
    rw [Nat.toDigits_zero, Nat.add_zero] at hdigit
    rw [Nat.pow_succ', Nat.mul_left_comm, ← hdigit, ih, List.append_assoc, ← List.replicate_succ']

theorem positionalText_of_nat (hpos : 0 < c) (k : Nat)
    : positionalText c k = toString (c * 10 ^ k) := by
  unfold positionalText
  dsimp only
  rw [if_pos (Int.natCast_nonneg k), ← String.toList_inj, String.toList_append, toList_pushn,
    Nat.toString_eq_repr, Nat.toString_eq_repr, Nat.toList_repr, Nat.toList_repr,
    toDigits_mul_ten_pow hpos, Int.toNat_natCast]
  rfl

/-- The definition as an equation of functions: applied to a number, both sides would be computed. -/
theorem magnitudeText_eq
    : magnitudeText = fun m =>
        let (digits, p) := shortest m
        let least := (Decimal.toDouble ⟨1, -6⟩).magnitude
        let bound := (Decimal.toDouble ⟨1, 21⟩).magnitude
        if least ≤ m && m < bound then positionalText digits p else exponentText digits p := by
  delta magnitudeText
  exact Eq.refl _

theorem magnitudeText_of_le {p : Int} (h : shortest m = (c, p))
    (hleast : (Decimal.toDouble ⟨1, -6⟩).magnitude ≤ m) (hbound : m < (Decimal.toDouble ⟨1, 21⟩).magnitude)
    : magnitudeText m = positionalText c p := by
  rw [magnitudeText_eq]
  beta_reduce
  generalize shortest m = found at *
  subst h
  exact if_pos ((Bool.and_eq_true _ _).mpr ⟨decide_eq_true hleast, decide_eq_true hbound⟩)

theorem magnitudeText_wholeMagnitude (hpos : 0 < n) (hn : n < wordBound)
    : magnitudeText (wholeMagnitude n) = toString n := by
  obtain ⟨c, k, hshortest, rfl⟩ := shortest_wholeMagnitude hpos hn
  have hc : 0 < c := Nat.pos_of_mul_pos_right hpos
  have hleast : (Decimal.toDouble ⟨1, -6⟩).magnitude ≤ wholeMagnitude (c * 10 ^ k) :=
    calc (Decimal.toDouble ⟨1, -6⟩).magnitude ≤ wholeMagnitude 1 := by decide +kernel
      _ ≤ wholeMagnitude (c * 10 ^ k) := wholeMagnitude_mono (by decide) hpos
  have hbound : wholeMagnitude (c * 10 ^ k) < (Decimal.toDouble ⟨1, 21⟩).magnitude :=
    calc wholeMagnitude (c * 10 ^ k) ≤ wholeMagnitude wordBound :=
          wholeMagnitude_mono (le_exactBound hn) (Nat.le_of_lt hn)
      _ < (Decimal.toDouble ⟨1, 21⟩).magnitude := by decide +kernel
  rw [magnitudeText_of_le hshortest hleast hbound, positionalText_of_nat hc]

/-- The text of a whole number that is not negative is its digits. Both zeros are written alike. -/
theorem toText_of_isIntegral {x : Double} (hx : x.isIntegral) (hsign : x.isZero ∨ ¬ x.negative)
    (hn : x.wholePart < wordBound) : x.toText = toString x.wholePart := by
  unfold isIntegral isFinite at hx
  rw [Bool.and_eq_true, decide_eq_true_eq, decide_eq_true_eq] at hx
  obtain ⟨hfinite, hmod⟩ := hx
  have hunits : x.wholePart * one = x.units := Nat.div_mul_cancel (Nat.dvd_of_mod_eq_zero hmod)
  have hmagnitude : x.magnitude = wholeMagnitude x.wholePart := by
    apply strictMono_unitsAt.injective
    rw [unitsAt_wholeMagnitude (le_exactBound hn), hunits]
    rfl
  have hnan : ¬ x.isNaN := by
    unfold isNaN
    simpa using Nat.le_of_lt hfinite
  have hinf : ¬ x.isInfinite := by
    unfold isInfinite
    simpa using Nat.ne_of_lt hfinite
  unfold toText
  rw [if_neg hnan]
  by_cases hzero : x.isZero
  . have hwhole : x.wholePart = 0 := by
      unfold isZero at hzero
      rw [decide_eq_true_eq] at hzero
      unfold wholePart units
      rw [hzero, unitsAt_of_le (Nat.zero_le _), Nat.zero_div]
    rw [if_pos hzero, hwhole]
    rfl
  . have hpos : 0 < x.wholePart := by
      apply Nat.pos_of_ne_zero
      intro h
      rw [h] at hmagnitude
      unfold isZero at hzero
      rw [decide_eq_true_eq, hmagnitude] at hzero
      exact hzero wholeMagnitude_zero
    rw [if_neg hzero, if_neg (hsign.resolve_left hzero)]
    simp only [hinf, hmagnitude, magnitudeText_wholeMagnitude hpos hn]
    rfl

end ScriptHost.Double
