import Mathlib.Data.List.Induction
import ScriptHost.Text.Digits

/-!
This module contains what `readNat?` accepts: the decimal digits of the number behind any number of
zeros, and all of that behind a plus sign or not. Only the digits themselves have no leading zero.
-/

namespace ScriptHost.Text

theorem ofDecimalDigits_eq_ofDigitChars (digits : List Char)
    : ofDecimalDigits digits = Nat.ofDigitChars 10 digits 0 := by
  rw [Nat.ofDigitChars_eq_foldl]
  unfold ofDecimalDigits
  simp only [Nat.mul_comm]

theorem ofDecimalDigits_replicate_append (k n : Nat)
    : ofDecimalDigits (List.replicate k '0' ++ Nat.toDigits 10 n) = n := by
  rw [ofDecimalDigits_eq_ofDigitChars, Nat.ofDigitChars_append]
  simp

theorem toDigits_of_isDigit {c : Char} (hc : c.isDigit)
    : c.toNat - '0'.toNat < 10 ∧ Nat.toDigits 10 (c.toNat - '0'.toNat) = [c] := by
  have hrange : 48 ≤ c.toNat ∧ c.toNat ≤ 57 := by
    simpa [Char.isDigit, UInt32.le_iff_toNat_le] using hc
  have hlt : c.toNat - '0'.toNat < 10 := by
    simp only [Char.reduceToNat]
    omega
  refine ⟨hlt, ?_⟩
  rw [Nat.toDigits_of_lt_base hlt]
  congr 1
  apply Char.toNat_inj.mp
  rw [Nat.toNat_digitChar_of_lt_ten hlt]
  simp only [Char.reduceToNat]
  omega

theorem ofDecimalDigits_concat (digits : List Char) (c : Char)
    : ofDecimalDigits (digits ++ [c]) = 10 * ofDecimalDigits digits + (c.toNat - '0'.toNat) := by
  unfold ofDecimalDigits
  rw [List.foldl_append, List.foldl_cons, List.foldl_nil, Nat.mul_comm]

theorem eq_replicate_append_toDigits {digits : List Char} (hne : digits ≠ [])
    (hdigits : digits.all Char.isDigit)
    : ∃ k, digits = List.replicate k '0' ++ Nat.toDigits 10 (ofDecimalDigits digits) := by
  -- the last digit comes off, as it does in `toDigits`
  induction digits using List.reverseRecOn with
  | nil => contradiction
  | append_singleton digits c ih =>
    rw [List.all_append, Bool.and_eq_true, List.all_cons, List.all_nil, Bool.and_true] at hdigits
    obtain ⟨hlt, hc⟩ := toDigits_of_isDigit hdigits.2
    by_cases hnil : digits = []
    . subst hnil
      exact ⟨0, by simpa [ofDecimalDigits] using hc.symm⟩
    . obtain ⟨k, hk⟩ := ih hnil hdigits.1
      rw [ofDecimalDigits_concat]
      by_cases hzero : ofDecimalDigits digits = 0
      . refine ⟨k + 1, ?_⟩
        rw [hzero, Nat.toDigits_zero] at hk
        rw [hzero, Nat.mul_zero, Nat.zero_add, hc, hk, List.replicate_succ']
      . refine ⟨k, ?_⟩
        rw [← Nat.toDigits_append_toDigits (by decide) (Nat.pos_of_ne_zero hzero) hlt, hc,
          ← List.append_assoc, ← hk]

theorem toDigits_ne_zero_cons {n : Nat} {cs : List Char} (hne : cs ≠ [])
    : Nat.toDigits 10 n ≠ '0' :: cs := by
  intro h
  have hdigits : cs.all Char.isDigit := by
    rw [List.all_eq_true]
    intro c hc
    have hmem : c ∈ Nat.toDigits 10 n := by
      rw [h]
      exact List.mem_cons_of_mem _ hc
    exact Nat.isDigit_of_mem_toDigits (by decide) (by decide) hmem
  have hvalue : ofDecimalDigits cs = n := by
    rw [ofDecimalDigits_eq_ofDigitChars, ← Nat.ofDigitChars_ten_toDigits (n := n), h,
      Nat.ofDigitChars_cons]
    rfl
  obtain ⟨k, hk⟩ := eq_replicate_append_toDigits hne hdigits
  rw [hvalue, h] at hk
  have := congrArg List.length hk
  simp at this
  omega

theorem all_isDigit_replicate_append (k n : Nat)
    : (List.replicate k '0' ++ Nat.toDigits 10 n).all Char.isDigit := by
  rw [List.all_append, Bool.and_eq_true]
  constructor
  . simp
  . rw [List.all_eq_true]
    intro c hc
    exact Nat.isDigit_of_mem_toDigits (by decide) (by decide) hc

theorem replicate_append_ne_cons_plus (k n : Nat) (cs : List Char)
    : List.replicate k '0' ++ Nat.toDigits 10 n ≠ '+' :: cs := by
  intro h
  have hall := all_isDigit_replicate_append k n
  rw [h] at hall
  simp at hall

theorem ofDigits?_eq_some_iff {bound n : Nat} {digits : List Char}
    : (if digits.isEmpty || !digits.all Char.isDigit then none
        else if ofDecimalDigits digits < bound then some (ofDecimalDigits digits) else none)
        = some n
        ↔
      n < bound ∧ ∃ k, digits = List.replicate k '0' ++ Nat.toDigits 10 n := by
  constructor
  . intro h
    split at h
    . contradiction
    . next hdigits =>
      rw [Bool.or_eq_true, not_or, List.isEmpty_iff, Bool.not_eq_true', Bool.not_eq_false]
        at hdigits
      split at h
      . next hlt =>
        injection h with h
        rw [← h]
        exact ⟨hlt, eq_replicate_append_toDigits hdigits.1 hdigits.2⟩
      . contradiction
  . rintro ⟨hlt, k, rfl⟩
    rw [ofDecimalDigits_replicate_append, all_isDigit_replicate_append]
    simp [hlt, Nat.toDigits_ne_nil]

theorem readNat?_eq_some_iff {bound n : Nat} {s : String}
    : readNat? bound s = some n
        ↔
      n < bound ∧ ∃ k,
        s.toList = List.replicate k '0' ++ Nat.toDigits 10 n ∨
        s.toList = '+' :: (List.replicate k '0' ++ Nat.toDigits 10 n) := by
  unfold readNat?
  split
  . next cs hs =>
    rw [hs, ofDigits?_eq_some_iff]
    simp [(replicate_append_ne_cons_plus _ _ cs).symm]
  . next hs =>
    have hplus : ∀ cs, s.toList ≠ '+' :: cs := hs
    rw [ofDigits?_eq_some_iff]
    simp [hplus]

theorem startsWith_zero_iff (text : String)
    : text.startsWith "0" ↔ ∃ cs, text.toList = '0' :: cs := by
  rw [String.startsWith_string_iff]
  constructor
  . rintro ⟨cs, hcs⟩
    exact ⟨cs, hcs.symm⟩
  . rintro ⟨cs, hcs⟩
    exact ⟨cs, hcs.symm⟩

theorem hasLeadingZero_iff {text : String} {k n : Nat}
    (htext : text.toList = List.replicate k '0' ++ Nat.toDigits 10 n)
    : 1 < text.length ∧ text.startsWith "0" ↔ k ≠ 0 := by
  rw [startsWith_zero_iff, ← String.length_toList, htext, List.length_append, List.length_replicate]
  have hpos : 0 < (Nat.toDigits 10 n).length := Nat.length_toDigits_pos
  constructor
  . rintro ⟨hlen, cs, hcs⟩ rfl
    rw [List.replicate_zero, List.nil_append] at hcs
    rw [hcs, List.length_cons] at hlen
    have hne : cs ≠ [] := by
      rintro rfl
      simp at hlen
    exact toDigits_ne_zero_cons hne hcs
  . intro hk
    obtain ⟨k, rfl⟩ := Nat.exists_eq_succ_of_ne_zero hk
    exact ⟨by omega, _, rfl⟩

end ScriptHost.Text
