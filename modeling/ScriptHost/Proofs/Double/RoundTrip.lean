import ScriptHost.Proofs.Double.Grammar
import ScriptHost.Proofs.Double.Search
import ScriptHost.Proofs.Text.Digits

/-!
This module contains that the text of a number is the text of this number only: read again, it is the same
double. NaN stays NaN, and the sign of a zero is lost.
-/

namespace ScriptHost

namespace Decimal

theorem ofExponentDigits_eq {digits : List Char} (h : Text.ofDecimalDigits digits < exponentBound)
    : ofExponentDigits digits = Text.ofDecimalDigits digits := by
  induction digits using List.reverseRecOn with
  | nil => rfl
  | append_singleton digits c ih =>
    rw [Text.ofDecimalDigits_concat] at h ⊢
    have hprefix : Text.ofDecimalDigits digits < exponentBound := by omega
    have ih := ih hprefix
    unfold ofExponentDigits at ih ⊢
    rw [List.foldl_append, List.foldl_cons, List.foldl_nil, ih, if_pos hprefix, Nat.mul_comm]

end Decimal

namespace Double

open Decimal (IsDecimal ofParts)

variable {c m : Nat} {p : Int}

theorem toList_toString (n : Nat) : (toString n).toList = Nat.toDigits 10 n := by
  rw [Nat.toString_eq_repr, Nat.toList_repr]

/-- The digits of a number on both sides of a point, maybe behind zeros, are this number and a power of ten. -/
theorem read?_digits {whole point fraction exponent : List Char} {k : Nat}
    (hdigits : whole ++ fraction = List.replicate k '0' ++ Nat.toDigits 10 c) (hwhole : whole ≠ [])
    (hpoint : point = ['.'] ∨ point = [] ∧ fraction = []) (hexponent : Decimal.IsExponent exponent)
    : Decimal.read? (whole ++ (point ++ (fraction ++ exponent))) =
      some ⟨c, (Decimal.scanExponent exponent).1 - fraction.length⟩ := by
  have hall := Text.all_isDigit_replicate_append k c
  rw [← hdigits, List.all_append, Bool.and_eq_true, List.all_eq_true, List.all_eq_true] at hall
  have hparts : IsDecimal whole point fraction exponent :=
    ⟨hall.1, hall.2, hpoint, hexponent, fun h => absurd h hwhole⟩
  rw [Decimal.read?_parts hparts, ofParts, hdigits, Text.ofDecimalDigits_replicate_append]

/-! Decimals without an exponent. -/

/-- What the text of a decimal without an exponent spells: its zeros before the point are digits. -/
def positional (c : Nat) (p : Int) : Decimal :=
  if 0 ≤ p then ⟨c * 10 ^ p.toNat, 0⟩ else ⟨c, p⟩

theorem read?_positionalText (hc : 0 < c) (p : Int)
    : Decimal.read? (positionalText c p).toList = some (positional c p) := by
  by_cases hp : 0 ≤ p
  . obtain ⟨k, rfl⟩ := Int.eq_ofNat_of_zero_le hp
    have hdigits : Nat.toDigits 10 (c * 10 ^ k) ++ [] = List.replicate 0 '0' ++ Nat.toDigits 10 (c * 10 ^ k) := by
      simp
    have hread := read?_digits hdigits Nat.toDigits_ne_nil (.inr ⟨rfl, rfl⟩) .none
    rw [positionalText_of_nat hc, toList_toString, positional, if_pos hp]
    simpa [Decimal.scanExponent] using hread
  obtain ⟨places, rfl⟩ : ∃ n : Nat, p = -(n : Int) := ⟨(-p).toNat, by omega⟩
  unfold positionalText positional
  dsimp only
  rw [if_neg hp, if_neg hp, Int.neg_neg, Int.toNat_natCast, ← String.length_toList, toList_toString]
  split
  . next hinside =>
    have hcut : (Nat.toDigits 10 c).length - ((Nat.toDigits 10 c).length - places) = places := by omega
    generalize (Nat.toDigits 10 c).length - places = cut at *
    have hdigits : (Nat.toDigits 10 c).take cut ++ (Nat.toDigits 10 c).drop cut =
        List.replicate 0 '0' ++ Nat.toDigits 10 c := by
      simp
    have hwhole : (Nat.toDigits 10 c).take cut ≠ [] := by
      rw [← List.length_pos_iff, List.length_take]
      omega
    have hread := read?_digits hdigits hwhole (.inl rfl) .none
    simpa [Decimal.scanExponent, hcut] using hread
  . next hinside =>
    have hdigits : ['0'] ++ (List.replicate (places - (Nat.toDigits 10 c).length) '0' ++ Nat.toDigits 10 c) =
        List.replicate (places - (Nat.toDigits 10 c).length + 1) '0' ++ Nat.toDigits 10 c := by
      simp [List.replicate_succ]
    have hlength : ((places - (Nat.toDigits 10 c).length : Nat) : Int) + (Nat.toDigits 10 c).length = places := by
      omega
    have hread := read?_digits hdigits (by simp) (.inl rfl) .none
    simpa [Decimal.scanExponent, toList_pushn, hlength] using hread

/-! Decimals with an exponent. -/

/-- The text of an exponent, with its sign. -/
def exponentPart (e : Int) : List Char :=
  'e' :: ((if e < 0 then ['-'] else ['+']) ++ Nat.toDigits 10 e.natAbs)

theorem isExponent_exponentPart (e : Int)
    : Decimal.IsExponent (exponentPart e) ∧
      (e.natAbs < Decimal.exponentBound → (Decimal.scanExponent (exponentPart e)).1 = e) := by
  have hsign : (if e < 0 then ['-'] else ['+']) ∈ [[], ['+'], ['-']] := by
    split <;> decide
  have hdigits : ∀ c ∈ Nat.toDigits 10 e.natAbs, c.isDigit :=
    fun _ hc => Nat.isDigit_of_mem_toDigits (by decide) (by decide) hc
  refine ⟨.some (.inl rfl) hsign Nat.toDigits_ne_nil hdigits, fun hbound => ?_⟩
  have hvalue : Text.ofDecimalDigits (Nat.toDigits 10 e.natAbs) = e.natAbs :=
    Text.ofDecimalDigits_replicate_append 0 e.natAbs
  rw [exponentPart, Decimal.scanExponent_some (.inl rfl) hsign Nat.toDigits_ne_nil hdigits,
    Decimal.ofExponentDigits_eq (by rwa [hvalue]), hvalue]
  by_cases he : e < 0
  . rw [if_pos he, if_pos rfl]
    omega
  . rw [if_neg he, if_neg (by decide)]
    omega

/-- The exponent that the text of a decimal has: the one of its first digit. -/
def textExponent (c : Nat) (p : Int) : Int :=
  p + ((Nat.toDigits 10 c).length - 1 : Nat)

theorem toList_exponentText (c : Nat) (p : Int)
    : (exponentText c p).toList =
      (Nat.toDigits 10 c).take 1 ++ ((if (Nat.toDigits 10 c).drop 1 = [] then [] else ['.']) ++
        ((Nat.toDigits 10 c).drop 1 ++ exponentPart (textExponent c p))) := by
  unfold exponentText exponentPart textExponent
  dsimp only
  rw [← String.length_toList, toList_toString]
  generalize p + ((Nat.toDigits 10 c).length - 1 : Nat) = e
  generalize (Nat.toDigits 10 c).drop 1 = fraction
  have hempty : (String.ofList fraction).isEmpty = true ↔ fraction = [] := by
    rw [String.isEmpty_iff, ← String.toList_inj]
    simp
  by_cases hfraction : fraction = []
  . by_cases he : e < 0 <;> simp [hfraction, he]
  . by_cases he : e < 0 <;> simp [hempty, hfraction, he]

theorem read?_exponentText (hbound : (textExponent c p).natAbs < Decimal.exponentBound)
    : Decimal.read? (exponentText c p).toList = some ⟨c, p⟩ := by
  obtain ⟨hpart, hvalue⟩ := isExponent_exponentPart (textExponent c p)
  have hdigits : (Nat.toDigits 10 c).take 1 ++ (Nat.toDigits 10 c).drop 1 =
      List.replicate 0 '0' ++ Nat.toDigits 10 c :=
    List.take_append_drop 1 _
  have hlength : 0 < (Nat.toDigits 10 c).length := Nat.length_toDigits_pos
  have hwhole : (Nat.toDigits 10 c).take 1 ≠ [] := by
    rw [← List.length_pos_iff, List.length_take]
    omega
  have hpoint : (if (Nat.toDigits 10 c).drop 1 = [] then [] else ['.']) = ['.'] ∨
      (if (Nat.toDigits 10 c).drop 1 = [] then [] else ['.']) = [] ∧ (Nat.toDigits 10 c).drop 1 = [] := by
    split
    . next hempty => exact .inr ⟨rfl, hempty⟩
    . exact .inl rfl
  rw [toList_exponentText, read?_digits hdigits hwhole hpoint hpart, hvalue hbound, textExponent,
    List.length_drop, Int.add_sub_cancel]

/-! Positive magnitudes. -/

theorem readsAs_positional (h : readsAs m c p) : readsAs m (positional c p).digits (positional c p).exponent := by
  unfold positional
  by_cases hp : 0 ≤ p
  . obtain ⟨k, rfl⟩ := Int.eq_ofNat_of_zero_le hp
    rw [if_pos hp, Int.toNat_natCast]
    rw [readsAs_iff, gridStep_of_nat] at h
    rw [readsAs_iff, show (0 : Int) = (0 : Nat) from rfl, gridStep_of_nat]
    simpa [Nat.mul_assoc] using h
  . rw [if_neg hp]
    exact h

theorem gridStep_snd_le {k : Nat} (hp : -(k : Int) ≤ p) : (gridStep p).2 ≤ 10 ^ k := by
  unfold gridStep
  split
  . exact Nat.pow_pos (by decide)
  . exact Nat.pow_le_pow_right (by decide) (by omega)

/-- More digits than this does no decimal have that is read as a double. -/
def digitBound : Nat := 1000

theorem digits_lt_of_readsAs (hm : m < infiniteMagnitude) (h : readsAs m c p) (hp : -(341 : Nat) ≤ p)
    : c < 10 ^ digitBound :=
  calc c ≤ c * (gridStep p).1 := Nat.le_mul_of_pos_right _ (gridStep_pos p).1
    _ ≤ 2 ^ 1024 * one * (gridStep p).2 := le_infinite_of_readsAs hm h
    _ ≤ 2 ^ 1024 * one * 10 ^ 341 := Nat.mul_le_mul_left _ (gridStep_snd_le hp)
    _ < 10 ^ digitBound := by decide +kernel

theorem textExponent_bound (hpos : 0 < m) (hm : m < infiniteMagnitude) (h : readsAs m c p) (hp : -341 ≤ p)
    : (textExponent c p).natAbs < Decimal.exponentBound := by
  have hhigh := exponent_le_of_readsAs hpos hm h
  have hlength : (Nat.toDigits 10 c).length ≤ digitBound :=
    (Nat.length_toDigits_le_iff (by decide) (by decide)).2 (digits_lt_of_readsAs hm h hp)
  unfold digitBound at hlength
  unfold textExponent Decimal.exponentBound
  omega

/-- The text of a positive magnitude spells a decimal that is read as it. -/
theorem exists_read?_magnitudeText (hpos : 0 < m) (hm : m < infiniteMagnitude)
    : ∃ d, Decimal.read? (magnitudeText m).toList = some d ∧ d.toDouble = ofMagnitude false m := by
  obtain ⟨c, p, hshortest, hreads, hp⟩ := shortest_spec hpos hm
  have hc := digits_pos_of_readsAs hpos hreads
  rw [magnitudeText_eq]
  beta_reduce
  generalize shortest m = found at *
  subst hshortest
  dsimp only
  split
  . exact ⟨_, read?_positionalText hc p, toDouble_of_readsAs hpos hm (readsAs_positional hreads)⟩
  . exact ⟨_, read?_exponentText (textExponent_bound hpos hm hreads hp), toDouble_of_readsAs hpos hm hreads⟩

/-! Texts. -/

theorem trim_spelled {cs : List Char} (h : ∀ c ∈ cs, Decimal.isNumberPart c) : Text.trim cs = cs :=
  trim_eq_self (fun c hc => isBlank_of_isNumberPart (h c (List.mem_of_mem_head? hc)))
    fun c hc => isBlank_of_isNumberPart (h c (List.mem_of_getLast? hc))

/-- What a spelled decimal looks like to the reading of a text. -/
theorem spelled_of_read? {cs : List Char} {d : Decimal} (h : Decimal.read? cs = some d)
    : (∀ c ∈ cs, Decimal.isNumberPart c) ∧ cs ≠ [] ∧ (cs.head? ≠ some '+' ∧ cs.head? ≠ some '-') ∧
      (∀ mark digits, cs = '0' :: mark :: digits → mark ≠ 'x' ∧ mark ≠ 'X') ∧ cs ≠ "Infinity".toList := by
  have hspells := spells_of_read? h
  have hall : ∀ c ∈ cs, Decimal.isNumberPart c := by
    obtain ⟨whole, point, fraction, exponent, hparts, rfl, -⟩ := Decimal.read?_eq_some_iff.1 h
    exact hparts.all
  refine ⟨hall, ?_, ?_, ?_, ?_⟩
  . rintro rfl
    exact not_spells_nil hspells
  . cases cs with
    | nil => exact absurd hspells not_spells_nil
    | cons c word =>
      have hstart := hspells.startsNumber
      constructor <;> rintro ⟨⟩ <;> simp [Token.startsNumber] at hstart
  . rintro mark digits rfl
    exact not_or.1 fun hmark => not_read?_hex hmark h
  . rintro rfl
    exact absurd (hall 'I' (by decide)) (by decide)

theorem ofText_of_read? {s : String} {d : Decimal} (h : Decimal.read? s.toList = some d)
    : ofText s = d.toDouble := by
  obtain ⟨hall, hne, hsign, hhex, hinfinity⟩ := spelled_of_read? h
  rw [ofText, trim_spelled hall, ofTrimmed_unsigned hne hsign hhex, if_neg hinfinity, h]
  rfl

theorem ofText_minus_of_read? {s : String} {d : Decimal} (h : Decimal.read? s.toList = some d)
    : ofText ("-" ++ s) = d.toDouble.neg := by
  obtain ⟨hall, -, -, -, hinfinity⟩ := spelled_of_read? h
  have htext : ("-" ++ s).toList = '-' :: s.toList := String.toList_append
  have hall' : ∀ c ∈ '-' :: s.toList, Decimal.isNumberPart c := List.forall_mem_cons.2 ⟨by decide, hall⟩
  rw [ofText, htext, trim_spelled hall', ofTrimmed_minus, if_neg hinfinity, h]
  rfl

theorem ofText_signed {s : String} {d : Decimal} (h : Decimal.read? s.toList = some d)
    (hd : d.toDouble = ofMagnitude false m) (hm : m ≤ infiniteMagnitude) (negative : Bool)
    : ofText (if negative then "-" ++ s else s) = ofMagnitude negative m := by
  cases negative with
  | false => exact (ofText_of_read? h).trans hd
  | true =>
    have hcount := lt_magnitudeCount hm
    refine (ofText_minus_of_read? h).trans ?_
    rw [hd, neg, negative_ofMagnitude hcount, magnitude_ofMagnitude hcount]
    rfl

theorem ofText_infinity (negative : Bool)
    : ofText (if negative then "-" ++ "Infinity" else "Infinity") = infinity negative := by
  cases negative <;> decide +kernel

/-- The text of a number that is no zero, read again, is this number. -/
theorem ofText_toText_of_ne {x : Double} (hnan : ¬ x.isNaN) (hzero : ¬ x.isZero) : ofText x.toText = x := by
  rw [toText, if_neg hnan, if_neg hzero]
  dsimp only
  by_cases hinfinite : x.isInfinite
  . rw [if_pos hinfinite, ofText_infinity, infinity, ← of_decide_eq_true hinfinite]
    exact ofMagnitude_magnitude x
  . have hpos : 0 < x.magnitude := Nat.pos_of_ne_zero fun h => hzero (decide_eq_true h)
    have hm : x.magnitude < infiniteMagnitude := by
      simp only [isNaN, isInfinite, decide_eq_true_eq] at hnan hinfinite
      omega
    obtain ⟨d, hread, hd⟩ := exists_read?_magnitudeText hpos hm
    rw [if_neg hinfinite, ofText_signed hread hd (Nat.le_of_lt hm)]
    exact ofMagnitude_magnitude x

/--
The text of a number, read again, equals the number, and is the same double unless the number is a NaN or a
zero. There is one text for each of these, read as the quiet NaN and as the positive zero.
-/
theorem ofText_toText (x : Double)
    : (ofText x.toText).eq x = !x.isNaN ∧
      ofText x.toText = if x.isNaN then nan else if x.isZero then zero false else x := by
  by_cases hnan : x.isNaN
  . have htext : ofText x.toText = nan := by
      rw [toText, if_pos hnan]
      decide +kernel
    rw [if_pos hnan, htext, hnan]
    exact ⟨by simp [eq, compare?, isNaN_nan], rfl⟩
  by_cases hzero : x.isZero
  . have htext : ofText x.toText = zero false := by
      rw [toText, if_neg hnan, if_pos hzero]
      decide +kernel
    have hmagnitude : x.magnitude = 0 := of_decide_eq_true hzero
    have hplace : x.place = (zero false).place := by
      rw [place_of_sign (.inl hzero), hmagnitude]
      rfl
    have hnumber : (zero false).isNaN = false := by decide
    rw [if_neg hnan, if_pos hzero, htext]
    exact ⟨by simp [eq, compare?, hnan, hplace, hnumber], rfl⟩
  . rw [if_neg hnan, if_neg hzero, ofText_toText_of_ne hnan hzero]
    exact ⟨by simp [eq, compare?, hnan], rfl⟩

end Double
end ScriptHost
