import ScriptHost.Double.Basic

/-!
This module contains rounding to the nearest double. A fraction of units lies in the binade whose
distance between neighbours is `2 ^ s` units; it is rounded to a whole number of those, a half to the
even neighbour. Adding the places below that binade gives the magnitude.
-/

namespace ScriptHost

/-- The whole number nearest to `n / d`; a half goes to the even neighbour. -/
def roundHalfEven (n d : Nat) : Nat :=
  let q := n / d
  let r := n % d
  if 2 * r < d then q
  else if d < 2 * r then q + 1
  else if q % 2 = 0 then q
  else q + 1

namespace Double

/-- The scale at which `w` units and the fraction above them are rounded. -/
def scaleOf (w : Nat) : Nat :=
  w.log2 - 52

/-- The magnitude nearest to `n / d` units. It may lie above the infinite one. -/
def nearestMagnitude (n d : Nat) : Nat :=
  let s := scaleOf (n / d)
  roundHalfEven n (d <<< s) + s * binadeSize

/-- The double nearest to `n / d` units, with the given sign. -/
def ofUnits (negative : Bool) (n d : Nat) : Double :=
  ofMagnitude negative (min (nearestMagnitude n d) infiniteMagnitude)

/-- The double nearest to a whole number. -/
def ofNat (n : Nat) : Double :=
  ofUnits false (n * one) 1

end Double
end ScriptHost
