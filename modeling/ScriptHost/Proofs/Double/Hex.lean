import ScriptHost.Double.Text
import ScriptHost.Proofs.Double.Exact
import ScriptHost.Proofs.Token.Local

/-!
This module contains the numbers of hexadecimal digits. The digits are taken one by one, and every step
rounds. As soon as the number has come to the exact bound, all further digits are rounded away. The
result is nearest to the number of all digits unless the kept ones stop half-way between two doubles:
then the even one is taken, also if a lost digit lies above the middle.
-/

namespace ScriptHost.Double

open Text

variable {n d m u e E : Nat}

/-- The number of last digits that are lost: those behind the first ones that come to the exact bound. -/
def hexLost (n : Nat) : Nat :=
  (n.log2 - 53) / 4

/-- A number with zeros for the digits that are lost. -/
def hexKept (n : Nat) : Nat :=
  n / 16 ^ hexLost n * 16 ^ hexLost n

theorem log2_lt_of_lt (hn : n < exactBound) : n.log2 < 53 := by
  by_cases hzero : n = 0
  . rw [hzero]
    decide
  . exact (Nat.log2_lt hzero).2 hn

theorem le_log2_of_le (hn : exactBound ≤ n) : 53 ≤ n.log2 := by
  have hzero : n ≠ 0 := by
    rintro rfl
    exact absurd hn (by decide)
  exact (Nat.le_log2 hzero).2 hn

theorem log2_mul_sixteen_add (hn : n ≠ 0) (hd : d < 16) : (n * 16 + d).log2 = n.log2 + 4 := by
  have hlow := Nat.log2_self_le hn
  have hhigh := @Nat.lt_log2_self n
  rw [Nat.log2_eq_iff (by omega), Nat.pow_add, Nat.add_right_comm, Nat.pow_add]
  omega

theorem hexKept_of_lt (hn : n < exactBound) : hexKept n = n := by
  have hlost : hexLost n = 0 := by
    have := log2_lt_of_lt hn
    unfold hexLost
    omega
  unfold hexKept
  rw [hlost, Nat.pow_zero, Nat.div_one, Nat.mul_one]

theorem sixteen_pow (k : Nat) : 16 ^ k = 2 ^ (4 * k) := by
  rw [Nat.pow_mul]

theorem exactBound_mul_le_hexKept (hn : exactBound ≤ n) : exactBound * 16 ^ hexLost n ≤ hexKept n := by
  have hlog := le_log2_of_le hn
  have hzero : n ≠ 0 := by
    rintro rfl
    exact absurd hn (by decide)
  apply Nat.mul_le_mul_right
  rw [Nat.le_div_iff_mul_le (Nat.pow_pos (by decide)), sixteen_pow]
  calc exactBound * 2 ^ (4 * hexLost n) = 2 ^ (53 + 4 * hexLost n) := by rw [Nat.pow_add]; rfl
    _ ≤ 2 ^ n.log2 := Nat.pow_le_pow_right (by decide) (by unfold hexLost; omega)
    _ ≤ n := Nat.log2_self_le hzero

theorem exactBound_le_hexKept (hn : exactBound ≤ n) : exactBound ≤ hexKept n :=
  Nat.le_trans (Nat.le_mul_of_pos_right _ (Nat.pow_pos (by decide))) (exactBound_mul_le_hexKept hn)

/-- Below the exact bound, the next digit is kept. -/
theorem hexKept_add_of_lt (hn : n < exactBound) (hd : d < 16) : hexKept (n * 16 + d) = n * 16 + d := by
  have hlost : hexLost (n * 16 + d) = 0 := by
    by_cases hzero : n = 0
    . have := log2_lt_of_lt (n := n * 16 + d) (by unfold exactBound; omega)
      unfold hexLost
      omega
    . have := log2_lt_of_lt hn
      unfold hexLost
      rw [log2_mul_sixteen_add hzero hd]
      omega
  unfold hexKept
  rw [hlost, Nat.pow_zero, Nat.div_one, Nat.mul_one]

/-- From the exact bound on, the next digit is lost. -/
theorem hexKept_add_of_le (hn : exactBound ≤ n) (hd : d < 16) : hexKept (n * 16 + d) = hexKept n * 16 := by
  have hlog := le_log2_of_le hn
  have hzero : n ≠ 0 := by
    rintro rfl
    exact absurd hn (by decide)
  have hlost : hexLost (n * 16 + d) = hexLost n + 1 := by
    unfold hexLost
    rw [log2_mul_sixteen_add hzero hd]
    omega
  have hdigit : (n * 16 + d) / 16 = n := by omega
  unfold hexKept
  rw [hlost, Nat.pow_succ', ← Nat.div_div_eq_div_mul, hdigit, Nat.mul_left_comm, Nat.mul_comm 16]

/-! One digit more. -/

theorem wholeMagnitude_mul_sixteen (hn : 0 < n)
    : wholeMagnitude (n * 16) = wholeMagnitude n + 4 * binadeSize := by
  unfold wholeMagnitude
  rw [Nat.mul_right_comm, show (16 : Nat) = 2 ^ 4 from rfl,
    nearestMagnitude_mul_two_pow (binadeSize_le_mul_one hn)]

theorem ofNat_mul_sixteen (n : Nat) : (ofNat n).mul (ofNat 16) = ofNat (n * 16) := by
  have hsixteen : (16 : Nat) ≤ exactBound := by decide
  have hfactor := wholeMagnitude_lt hsixteen
  by_cases hzero : n = 0
  . have hnone := Nat.zero_le exactBound
    rw [hzero, ofNat_of_le hsixteen, ofNat_of_le hnone, ofMagnitude_mul (wholeMagnitude_lt hnone) hfactor,
      unitsAt_wholeMagnitude hsixteen, unitsAt_wholeMagnitude hnone, ← Nat.mul_assoc,
      nearestMagnitude_mul one_pos, Nat.mul_right_comm]
    rfl
  . have hn : 0 < n := Nat.pos_of_ne_zero hzero
    rw [ofNat_of_le hsixteen, ofNat_eq, ofNat_eq, wholeMagnitude_mul_sixteen hn]
    by_cases hfinite : wholeMagnitude n < infiniteMagnitude
    . rw [Nat.min_eq_left (Nat.le_of_lt hfinite), ofMagnitude_mul hfinite hfactor,
        unitsAt_wholeMagnitude hsixteen, ← Nat.mul_assoc, nearestMagnitude_mul one_pos]
      have hunits := unitsAt_add_binades (wholeMagnitude_pos hn) 4
      rw [show (16 : Nat) = 2 ^ 4 from rfl, ← hunits, nearestMagnitude_unitsAt]
    . have hpos : 0 < wholeMagnitude 16 := Nat.lt_of_lt_of_le (by decide) (wholeMagnitude_pos (by decide))
      rw [Nat.min_eq_right (by omega), Nat.min_eq_right (by omega)]
      exact infinity_mul hpos hfactor

theorem ofNat_add (hd : d ≤ exactBound) (hn : wholeMagnitude n < infiniteMagnitude)
    : (ofNat n).add (ofNat d)
        =
      ofMagnitude false
        (min (nearestMagnitude (unitsAt (wholeMagnitude n) + d * one) 1) infiniteMagnitude) := by
  rw [ofNat_of_le hd, ofNat_eq n, Nat.min_eq_left (Nat.le_of_lt hn), ofMagnitude_add hn (wholeMagnitude_lt hd),
    unitsAt_wholeMagnitude hd]

theorem ofNat_step_of_lt (hn : n < exactBound) (hd : d < 16)
    : ((ofNat n).mul (ofNat 16)).add (ofNat d) = ofNat (n * 16 + d) := by
  have hd' : d ≤ exactBound := by
    unfold exactBound
    omega
  have hunits : unitsAt (wholeMagnitude (n * 16)) = n * 16 * one := by
    by_cases hzero : n = 0
    . rw [hzero]
      exact unitsAt_wholeMagnitude (Nat.zero_le _)
    . have hpos : 0 < n := Nat.pos_of_ne_zero hzero
      rw [wholeMagnitude_mul_sixteen hpos, unitsAt_add_binades (wholeMagnitude_pos hpos),
        unitsAt_wholeMagnitude (Nat.le_of_lt hn), Nat.mul_right_comm n 16,
        show (16 : Nat) = 2 ^ 4 from rfl]
  have hfinite : wholeMagnitude (n * 16) < infiniteMagnitude := by
    apply strictMono_unitsAt.lt_iff_lt.1
    rw [hunits]
    apply mul_one_lt_infinite (show 57 < 1024 by decide)
    calc n * 16 ≤ exactBound * 16 := Nat.mul_le_mul_right _ (Nat.le_of_lt hn)
      _ = 2 ^ 57 := (Nat.pow_add 2 53 4).symm
  rw [ofNat_mul_sixteen, ofNat_add hd' hfinite, hunits, ← Nat.add_mul]
  rfl

theorem le_scale_of_le (hn : exactBound ≤ n) : fractionPlaces + 1 ≤ scale (wholeMagnitude n) := by
  calc fractionPlaces + 1 = scale (wholeMagnitude exactBound) := (scale_wholeMagnitude_two_pow 53).symm
    _ ≤ scale (wholeMagnitude n) := scale_mono (wholeMagnitude_mono (Nat.le_refl _) hn)

/-- From the exact bound on, the sum with a digit is rounded back. -/
theorem ofNat_step_of_le (hn : exactBound ≤ n) (hd : d < 16)
    : ((ofNat n).mul (ofNat 16)).add (ofNat d) = ofNat (n * 16) := by
  have hd' : d ≤ exactBound := by
    unfold exactBound
    omega
  have hpos : 0 < n := Nat.lt_of_lt_of_le (by decide) hn
  have hone := one_pos
  rw [ofNat_mul_sixteen]
  by_cases hfinite : wholeMagnitude (n * 16) < infiniteMagnitude
  . have hdistance : 2 * (d * one) < 2 ^ scale (wholeMagnitude (n * 16)) := by
      have hscale := le_scale_of_le hn
      rw [wholeMagnitude_mul_sixteen hpos, scale_add_binades (wholeMagnitude_pos hpos)]
      have hdigit : d * one ≤ 15 * one := Nat.mul_le_mul_right _ (by omega)
      calc 2 * (d * one) < 2 ^ 5 * one := by omega
        _ = 2 ^ (5 + fractionPlaces) := by rw [one_eq, Nat.pow_add]
        _ ≤ 2 ^ (scale (wholeMagnitude n) + 4) :=
          Nat.pow_le_pow_right (by decide) (by omega)
    rw [ofNat_add hd' hfinite, nearestMagnitude_unitsAt_add hdistance]
    rfl
  . rw [ofNat_eq, Nat.min_eq_right (by omega), ofNat_of_le hd']
    exact infinity_add (wholeMagnitude_lt hd')

theorem ofNat_hexKept_step (n : Nat) (hd : d < 16)
    : ((ofNat (hexKept n)).mul (ofNat 16)).add (ofNat d) = ofNat (hexKept (n * 16 + d)) := by
  by_cases hn : n < exactBound
  . rw [hexKept_of_lt hn, ofNat_step_of_lt hn hd, hexKept_add_of_lt hn hd]
  . rw [Nat.not_lt] at hn
    rw [ofNat_step_of_le (exactBound_le_hexKept hn) hd, hexKept_add_of_le hn hd]

/-! All digits. -/

theorem ofHexDigits?_eq_none_iff {ds : List Char}
    : ofHexDigits? ds = none ↔ ds = [] ∨ ∃ c ∈ ds, hexDigit? c = none := by
  have hfold : ∀ (ds : List Char) (x : Double),
      ds.foldlM (fun x c => (hexDigit? c).map fun d => (x.mul (ofNat 16)).add (ofNat d)) x = none ↔
        ∃ c ∈ ds, hexDigit? c = none := by
    intro ds
    induction ds with
    | nil => simp
    | cons c ds ih =>
      intro x
      cases hc : hexDigit? c with
      | none => simp [hc]
      | some d => simp [hc, ih]
  unfold ofHexDigits?
  cases ds with
  | nil => simp
  | cons c ds =>
    rw [List.isEmpty_cons, if_neg Bool.false_ne_true, hfold]
    simp

theorem foldlM_hexKept (ds : List Char) (hds : ∀ c ∈ ds, hexDigit? c ≠ none) (n : Nat)
    : ds.foldlM (fun x c => (hexDigit? c).map fun d => (x.mul (ofNat 16)).add (ofNat d))
          (ofNat (hexKept n))
        =
      some (ofNat (hexKept (ds.foldl (fun n c => n * 16 + (hexDigit? c).getD 0) n))) := by
  induction ds generalizing n with
  | nil => rfl
  | cons c ds ih =>
    obtain ⟨d, hd⟩ := Option.ne_none_iff_exists'.1 (hds c List.mem_cons_self)
    rw [List.foldlM_cons, List.foldl_cons, hd]
    show ds.foldlM _ (((ofNat (hexKept n)).mul (ofNat 16)).add (ofNat d)) = _
    rw [ofNat_hexKept_step n (hexDigit?_lt hd), ih fun c hc => hds c (List.mem_cons_of_mem _ hc)]
    rfl

/-- The result is the double nearest to the number with zeros for the digits that are lost. -/
theorem ofHexDigits?_eq {ds : List Char} (hne : ds ≠ []) (hds : ∀ c ∈ ds, hexDigit? c ≠ none)
    : ofHexDigits? ds = some (ofNat (hexKept (ofHexDigits ds))) := by
  have hzero : zero false = ofNat (hexKept 0) := by
    rw [hexKept_of_lt (by decide), ofNat_of_le (Nat.zero_le _), wholeMagnitude_zero]
    rfl
  unfold ofHexDigits?
  rw [if_neg (by simpa using hne), hzero, foldlM_hexKept ds hds]
  rfl

/-! The digits that are lost. -/

/-- `u` units lie in the middle between the magnitude `m`, which is even, and the next one. -/
def IsTie (u m : Nat) : Prop :=
  m % 2 = 0 ∧ 2 * u = unitsAt m + unitsAt (m + 1)

theorem IsTie.magnitudeBelow_eq (h : IsTie u m) : magnitudeBelow u = m := by
  have hlt := strictMono_unitsAt (show m < m + 1 by omega)
  have htie := h.2
  exact magnitudeBelow_of_unitsAt (by omega) (by omega)

theorem isTie_magnitudeBelow_iff
    : IsTie u (magnitudeBelow u) ↔
        magnitudeBelow u % 2 = 0 ∧ 2 * (u % 2 ^ scaleOf u) = 2 ^ scaleOf u := by
  have hadd := unitsAt_magnitudeBelow_add u
  have hsucc := unitsAt_magnitudeBelow_succ u
  unfold IsTie
  omega

theorem isTie_nearestMagnitude_iff
    : IsTie u (nearestMagnitude u 1) ↔ IsTie u (magnitudeBelow u) := by
  constructor
  . intro h
    rw [← h.magnitudeBelow_eq] at h
    exact h
  . intro h
    have hrest := isTie_magnitudeBelow_iff.1 h
    rw [nearestMagnitude_eq, if_neg (by omega), if_neg (by omega), if_pos hrest.1]
    exact h

/--
What is less than a step `E`, of which two make up half of the distance or a part of it, only counts
behind a tie.
-/
theorem nearestMagnitude_add (hu : E ∣ u) (hE : 2 * E ∣ 2 ^ scaleOf u) (he : e < E)
    : (IsTie u (nearestMagnitude u 1) ∧ 0 < e → nearestMagnitude (u + e) 1 = nearestMagnitude u 1 + 1) ∧
      (¬ (IsTie u (nearestMagnitude u 1) ∧ 0 < e) →
        nearestMagnitude (u + e) 1 = nearestMagnitude u 1) := by
  obtain ⟨t, ht⟩ := hE
  have hgap : E ∣ 2 ^ scaleOf u := ⟨2 * t, by rw [ht]; ac_rfl⟩
  obtain ⟨a, ha⟩ := (Nat.dvd_mod_iff hgap).2 hu
  have hmod := Nat.mod_lt u (Nat.two_pow_pos (scaleOf u))
  have hadd := unitsAt_magnitudeBelow_add u
  have hsucc := unitsAt_magnitudeBelow_succ u
  -- the rest is a multiple of the step, and so is half of the distance
  have hstep : ∀ b, E * a < E * b → E * a + E ≤ E * b := by
    intro b hlt
    have hab := Nat.lt_of_mul_lt_mul_left hlt
    rw [← Nat.mul_succ]
    exact Nat.mul_le_mul_left _ hab
  have hhalf := hstep t
  have hwhole := hstep (2 * t)
  rw [Nat.mul_left_comm] at hwhole
  rw [Nat.mul_assoc] at ht
  have hbelow : magnitudeBelow (u + e) = magnitudeBelow u :=
    magnitudeBelow_of_unitsAt (by omega) (by omega)
  have hscale : 2 ^ scaleOf (u + e) = 2 ^ scaleOf u := by
    rw [two_pow_scaleOf, two_pow_scaleOf, hbelow]
  have hrest : (u + e) % 2 ^ scaleOf (u + e) = u % 2 ^ scaleOf u + e := by
    have hadd' := unitsAt_magnitudeBelow_add (u + e)
    rw [hbelow] at hadd'
    omega
  rw [isTie_nearestMagnitude_iff, isTie_magnitudeBelow_iff, nearestMagnitude_eq, nearestMagnitude_eq,
    hrest, hscale, hbelow]
  constructor
  . rintro ⟨htie, he⟩
    rw [if_neg (by omega), if_pos (by omega), if_neg (by omega), if_neg (by omega), if_pos htie.1]
  . intro htie
    by_cases hlow : 2 * (u % 2 ^ scaleOf u) < 2 ^ scaleOf u
    . rw [if_pos (by omega), if_pos hlow]
    . rw [if_neg (by omega), if_neg hlow]
      by_cases heven : magnitudeBelow u % 2 = 0
      . by_cases hhigh : 2 ^ scaleOf u < 2 * (u % 2 ^ scaleOf u)
        . rw [if_pos (by omega), if_pos hhigh]
        . rw [if_neg (by omega), if_neg hhigh]
      . simp only [heven, if_false, ite_self]

theorem wholeMagnitude_hexKept (n : Nat)
    : (IsTie (hexKept n * one) (wholeMagnitude (hexKept n)) ∧ hexKept n < n →
        wholeMagnitude n = wholeMagnitude (hexKept n) + 1) ∧
      (¬ (IsTie (hexKept n * one) (wholeMagnitude (hexKept n)) ∧ hexKept n < n) →
        wholeMagnitude n = wholeMagnitude (hexKept n)) := by
  by_cases hn : n < exactBound
  . rw [hexKept_of_lt hn]
    simp
  . rw [Nat.not_lt] at hn
    have hone := one_pos
    have hkept := exactBound_mul_le_hexKept hn
    have hrest : hexKept n + n % 16 ^ hexLost n = n := Nat.div_add_mod' n _
    have hmod : n % 16 ^ hexLost n < 16 ^ hexLost n := Nat.mod_lt _ (Nat.pow_pos (by decide))
    have hdvd : 16 ^ hexLost n * one ∣ hexKept n * one :=
      Nat.mul_dvd_mul_right (Nat.dvd_mul_left _ _) _
    have hscale : 2 * (16 ^ hexLost n * one) ∣ 2 ^ scaleOf (hexKept n * one) := by
      have hunits : 2 ^ (53 + 4 * hexLost n + fractionPlaces) ≤ hexKept n * one := by
        rw [Nat.pow_add, Nat.pow_add, ← sixteen_pow, ← one_eq]
        exact Nat.mul_le_mul_right _ hkept
      have hlog := (Nat.le_log2 (Nat.ne_of_gt (Nat.lt_of_lt_of_le (Nat.two_pow_pos _) hunits))).2 hunits
      have hstep : 2 * (16 ^ hexLost n * one) = 2 ^ (1 + 4 * hexLost n + fractionPlaces) := by
        rw [Nat.pow_add, Nat.pow_add, ← sixteen_pow, ← one_eq, Nat.mul_assoc]
      rw [hstep]
      apply Nat.pow_dvd_pow
      unfold scaleOf
      omega
    have hadd := nearestMagnitude_add hdvd hscale (Nat.mul_lt_mul_of_pos_right hmod hone)
    rw [← Nat.add_mul, hrest] at hadd
    have hlost : 0 < n % 16 ^ hexLost n * one ↔ hexKept n < n := by
      rw [Nat.mul_pos_iff_of_pos_right hone]
      omega
    rw [hlost] at hadd
    exact hadd

/-- A number is rounded up from an odd magnitude, from the middle on. -/
theorem lt_nearestMagnitude_iff (hm : m % 2 = 1)
    : m < nearestMagnitude u 1 ↔ unitsAt m + unitsAt (m + 1) ≤ 2 * u := by
  have hadd := unitsAt_magnitudeBelow_add u
  have hmod := Nat.mod_lt u (Nat.two_pow_pos (scaleOf u))
  have hsucc := unitsAt_magnitudeBelow_succ u
  have hlow := magnitudeBelow_le_nearestMagnitude u
  have hhigh := nearestMagnitude_le u
  rcases Nat.lt_trichotomy (magnitudeBelow u) m with hlt | heq | hgt
  . have h1 := strictMono_unitsAt.monotone (show magnitudeBelow u + 1 ≤ m by omega)
    have h2 := strictMono_unitsAt (show m < m + 1 by omega)
    omega
  . rw [nearestMagnitude_eq, heq, if_neg (show ¬ m % 2 = 0 by omega)]
    rw [heq] at hadd hsucc
    split
    . omega
    . split <;> omega
  . have h1 := strictMono_unitsAt.monotone (show m + 1 ≤ magnitudeBelow u by omega)
    have h2 := strictMono_unitsAt (show m < m + 1 by omega)
    omega

/-- The least whole number that is rounded past the largest finite double: `2 ^ 1024 - 2 ^ 970`. -/
def overflowBound : Nat :=
  0x3fffffffffffff <<< 970

theorem infiniteMagnitude_le_wholeMagnitude_iff
    : infiniteMagnitude ≤ wholeMagnitude n ↔ overflowBound ≤ n := by
  have hmiddle : unitsAt (infiniteMagnitude - 1) + unitsAt (infiniteMagnitude - 1 + 1)
      = 2 * overflowBound * one := by decide +kernel
  have hiff := lt_nearestMagnitude_iff (m := infiniteMagnitude - 1) (u := n * one) (by decide)
  rw [hmiddle, ← Nat.mul_assoc, Nat.mul_le_mul_right_iff one_pos] at hiff
  have hpos : 0 < infiniteMagnitude := by decide
  unfold wholeMagnitude
  omega

/--
The digits that are kept stop at a tie, which is resolved to the finite magnitude `m` below, and one of
the lost digits is not zero.
-/
structure LosesTie (n m : Nat) : Prop where
  finite : m < infiniteMagnitude
  tie : IsTie (hexKept n * one) m
  lost : hexKept n < n

theorem ofHexDigits?_magnitude {ds : List Char} {x : Double} (h : ofHexDigits? ds = some x)
    : x = ofNat (hexKept (ofHexDigits ds)) := by
  have hok : ¬ (ds = [] ∨ ∃ c ∈ ds, hexDigit? c = none) := by
    rw [← ofHexDigits?_eq_none_iff, h]
    exact Option.some_ne_none x
  rw [not_or] at hok
  have hvalue := ofHexDigits?_eq hok.1 fun c hc hnone => hok.2 ⟨c, hc, hnone⟩
  rw [h] at hvalue
  exact Option.some.inj hvalue

theorem nearest_hexKept (n : Nat)
    : (LosesTie n (min (wholeMagnitude (hexKept n)) infiniteMagnitude) →
        Nearest (n * one) (min (wholeMagnitude (hexKept n)) infiniteMagnitude + 1)) ∧
      (¬ LosesTie n (min (wholeMagnitude (hexKept n)) infiniteMagnitude) →
        Nearest (n * one) (min (wholeMagnitude (hexKept n)) infiniteMagnitude)) := by
  have hnearest := nearest_wholeMagnitude n
  obtain ⟨hup, hsame⟩ := wholeMagnitude_hexKept n
  constructor
  . rintro ⟨hfinite, htie, hlost⟩
    have hm : min (wholeMagnitude (hexKept n)) infiniteMagnitude = wholeMagnitude (hexKept n) := by omega
    rw [hm] at hfinite htie ⊢
    rw [hup ⟨htie, hlost⟩, Nat.min_eq_left hfinite] at hnearest
    exact hnearest
  . intro hties
    by_cases hfinite : wholeMagnitude (hexKept n) < infiniteMagnitude
    . rw [Nat.min_eq_left (Nat.le_of_lt hfinite)] at hties ⊢
      rw [hsame fun h => hties ⟨hfinite, h.1, h.2⟩, Nat.min_eq_left (Nat.le_of_lt hfinite)] at hnearest
      exact hnearest
    . have hle : wholeMagnitude (hexKept n) ≤ wholeMagnitude n := by
        by_cases htie : IsTie (hexKept n * one) (wholeMagnitude (hexKept n)) ∧ hexKept n < n
        . rw [hup htie]
          omega
        . rw [hsame htie]
      rw [Nat.min_eq_right (by omega)] at hnearest ⊢
      exact hnearest

theorem infiniteMagnitude_le_hexKept_iff (n : Nat)
    : infiniteMagnitude ≤ wholeMagnitude (hexKept n) ↔ overflowBound ≤ n := by
  have heven : infiniteMagnitude % 2 = 0 := by decide
  obtain ⟨hup, hsame⟩ := wholeMagnitude_hexKept n
  rw [← infiniteMagnitude_le_wholeMagnitude_iff]
  by_cases htie : IsTie (hexKept n * one) (wholeMagnitude (hexKept n)) ∧ hexKept n < n
  . have hparity := htie.1.1
    rw [hup htie]
    omega
  . rw [hsame htie]

theorem scanNumber_hex {ds rest : List Char} {mark : Char} (hx : mark = 'x' ∨ mark = 'X')
    (hds : ∀ c ∈ ds, isHexDigit c) (hrest : ∀ c ∈ rest.head?, ¬ isHexDigit c)
    : Token.scanNumber ('0' :: mark :: (ds ++ rest))
        =
      (ofHexDigits? ds).elim (.fault .malformedToken 1) fun x => .token (.number x) (1 + ds.length) := by
  have hdigits : (ds ++ rest).takeWhile isHexDigit = ds := by
    rw [List.takeWhile_append_of_pos hds]
    cases rest with
    | nil => simp
    | cons c rest => simp [hrest c rfl]
  have hmark : (mark :: (ds ++ rest)).head? = some 'x' ∨ (mark :: (ds ++ rest)).head? = some 'X' := by
    simpa using hx
  rw [Token.scanNumber_eq, if_pos ⟨rfl, hmark⟩, List.tail_cons, hdigits]

/--
A run of hexadecimal digits has a number exactly if it has a digit and nothing else. The number is the
double nearest to what the digits denote, ties to even and infinite from the overflow bound on, except
where a tie is lost: there it is the neighbour below the nearest double. Literals and texts have these
numbers.
-/
theorem ofHexDigits?_nearest (ds : List Char)
    : (ofHexDigits? ds = none ↔ ds = [] ∨ ∃ c ∈ ds, hexDigit? c = none) ∧
      (∀ x, ofHexDigits? ds = some x →
        ∃ m ≤ infiniteMagnitude, x = ofMagnitude false m ∧
          (m = infiniteMagnitude ↔ overflowBound ≤ ofHexDigits ds) ∧
          (Nearest (ofHexDigits ds * one) m ↔ ¬ LosesTie (ofHexDigits ds) m) ∧
          (LosesTie (ofHexDigits ds) m → Nearest (ofHexDigits ds * one) (m + 1))) ∧
      (∀ mark, mark = 'x' ∨ mark = 'X' →
        ofTrimmed ('0' :: mark :: ds) = (ofHexDigits? ds).getD nan ∧
        ∀ rest : List Char, (∀ c ∈ ds, isHexDigit c) → (∀ c ∈ rest.head?, ¬ isHexDigit c) →
          Token.scanNumber ('0' :: mark :: (ds ++ rest))
            =
          (ofHexDigits? ds).elim (.fault .malformedToken 1) fun x =>
            .token (.number x) (1 + ds.length)) := by
  refine ⟨ofHexDigits?_eq_none_iff, ?_, ?_⟩
  . intro x hx
    obtain ⟨hlost, hnearest⟩ := nearest_hexKept (ofHexDigits ds)
    refine ⟨min (wholeMagnitude (hexKept (ofHexDigits ds))) infiniteMagnitude, Nat.min_le_right _ _,
      ofHexDigits?_magnitude hx, ?_, ⟨?_, hnearest⟩, hlost⟩
    . rw [← infiniteMagnitude_le_hexKept_iff]
      omega
    . intro hnear hloses
      have := hnear.unique (hlost hloses)
      omega
  . rintro mark (rfl | rfl)
    . exact ⟨rfl, fun rest hds hrest => scanNumber_hex (.inl rfl) hds hrest⟩
    . exact ⟨rfl, fun rest hds hrest => scanNumber_hex (.inr rfl) hds hrest⟩

/-- Behind `2 ^ 57 + 16`, which is half-way, the last digit is lost. -/
theorem ofHexDigits?_loses_tie
    : ∃ x, ofHexDigits? "200000000000011".toList = some x ∧
        ¬ Nearest (ofHexDigits "200000000000011".toList * one) x.magnitude := by
  refine ⟨⟨0x4380000000000000⟩, by decide +kernel, ?_⟩
  intro hnearest
  have hnext := hnearest.near 0x4380000000000001 (by decide) (by decide)
  revert hnext
  decide +kernel

end ScriptHost.Double
