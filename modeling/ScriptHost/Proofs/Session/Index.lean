import ScriptHost.Proofs.Double.Shortest
import ScriptHost.Proofs.Text.Digits
import ScriptHost.Session.Member

/-!
This module contains the keys of elements. A text is the key of an element exactly if it is the digits of
the position, and a value is one only if its text is.
-/

namespace ScriptHost

variable {key : String} {n : Nat}

theorem arrayIndex?_eq_some_iff : arrayIndex? key = some n ↔ key = toString n ∧ n < maxArrayIndex := by
  have htext : key = toString n ↔ key.toList = Nat.toDigits 10 n := by
    rw [← String.toList_inj, Nat.toString_eq_repr, Nat.toList_repr]
  unfold arrayIndex?
  rw [htext]
  constructor
  . intro h
    split at h
    . cases h
    . next hspelling =>
      rw [Bool.or_eq_true, Bool.and_eq_true, decide_eq_true_eq, Bool.not_eq_true', not_or,
        Bool.not_eq_false] at hspelling
      obtain ⟨hlt, k, hdigits | hplus⟩ := Text.readNat?_eq_some_iff.1 h
      . have hk := mt (Text.hasLeadingZero_iff hdigits).2 hspelling.1
        rw [not_not] at hk
        rw [hk] at hdigits
        exact ⟨hdigits, hlt⟩
      . have hdigit := List.all_eq_true.1 hspelling.2 '+' (hplus ▸ List.mem_cons_self)
        exact absurd hdigit (by decide)
  . rintro ⟨hdigits, hlt⟩
    have hdigits' : key.toList = List.replicate 0 '0' ++ Nat.toDigits 10 n := hdigits
    have hzero := mt (Text.hasLeadingZero_iff hdigits').1 (not_not.2 rfl)
    have hall : key.toList.all Char.isDigit := by
      rw [List.all_eq_true, hdigits]
      exact fun c hc => Nat.isDigit_of_mem_toDigits (by decide) (by decide) hc
    rw [if_neg]
    . exact Text.readNat?_eq_some_iff.2 ⟨hlt, 0, .inl hdigits'⟩
    . rw [Bool.or_eq_true, Bool.and_eq_true, decide_eq_true_eq, Bool.not_eq_true', not_or, Bool.not_eq_false]
      exact ⟨hzero, hall⟩

theorem arrayIndex?_toString (h : n < maxArrayIndex) : arrayIndex? (toString n) = some n :=
  arrayIndex?_eq_some_iff.2 ⟨rfl, h⟩

theorem arrayIndex?_length : arrayIndex? "length" = none := by
  decide +kernel

theorem eq_of_arrayIndex? {key' : String} (h : arrayIndex? key = some n) (h' : arrayIndex? key' = some n)
    : key' = key := by
  rw [(arrayIndex?_eq_some_iff.1 h).1, (arrayIndex?_eq_some_iff.1 h').1]

/-! Values as keys. -/

theorem toText_of_elementIndex? {key : Value} (h : elementIndex? key = some n)
    : key.toText = toString n ∧ key.object? = none ∧ n < maxArrayIndex := by
  unfold elementIndex? at h
  split at h
  . next x =>
    split at h
    . next hx =>
      rw [Bool.and_eq_true, Bool.and_eq_true] at hx
      cases h
      have hsign := Double.isZero_or_of_zero_le hx.1.1
      have hlt := Double.wholePart_lt hsign (by decide) hx.2
      refine ⟨?_, rfl, hlt⟩
      exact Double.toText_of_isIntegral hx.1.2 hsign (Nat.lt_trans hlt (by decide))
    . cases h
  . next text =>
    obtain ⟨htext, hlt⟩ := arrayIndex?_eq_some_iff.1 h
    exact ⟨htext, rfl, hlt⟩
  . cases h

end ScriptHost
