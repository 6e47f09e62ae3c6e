/-!
This module contains digits and the reading of whole numbers. Only the ASCII digits count.
-/

namespace ScriptHost.Text

/-- The value of a hexadecimal digit of either case. -/
def hexDigit? (c : Char) : Option Nat :=
  if c.isDigit then some (c.toNat - '0'.toNat)
  else if 'a' ≤ c ∧ c ≤ 'f' then some (c.toNat - 'a'.toNat + 10)
  else if 'A' ≤ c ∧ c ≤ 'F' then some (c.toNat - 'A'.toNat + 10)
  else none

def isHexDigit (c : Char) : Bool :=
  (hexDigit? c).isSome

/-- The number that a run of decimal digits denotes. -/
def ofDecimalDigits (digits : List Char) : Nat :=
  digits.foldl (fun n c => n * 10 + (c.toNat - '0'.toNat)) 0

/-- The number that a run of hexadecimal digits denotes. -/
def ofHexDigits (digits : List Char) : Nat :=
  digits.foldl (fun n c => n * 16 + (hexDigit? c).getD 0) 0

/--
Read a whole number below `bound`: one or more digits, after a plus sign or not.
-/
def readNat? (bound : Nat) (s : String) : Option Nat :=
  let digits := match s.toList with
    | '+' :: cs => cs
    | cs => cs
  if digits.isEmpty || !digits.all Char.isDigit then none
  else
    let n := ofDecimalDigits digits
    if n < bound then some n else none

theorem hexDigit?_lt {c : Char} {d : Nat} (h : hexDigit? c = some d) : d < 16 := by
  unfold hexDigit? at h
  have hle : ∀ a b : Char, a ≤ b ↔ a.toNat ≤ b.toNat := fun _ _ => Iff.rfl
  simp only [Char.isDigit, hle] at h
  split at h
  · next hd =>
    have : c.toNat ≤ 57 := by
      simp only [ge_iff_le, Bool.and_eq_true, decide_eq_true_eq] at hd
      exact hd.2
    simp at h
    omega
  · split at h
    · have : 'a'.toNat = 97 ∧ 'f'.toNat = 102 := by decide
      simp at h
      omega
    · split at h
      · have : 'A'.toNat = 65 ∧ 'F'.toNat = 70 := by decide
        simp at h
        omega
      · simp at h

end ScriptHost.Text
