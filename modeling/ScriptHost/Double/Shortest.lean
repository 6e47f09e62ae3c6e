import ScriptHost.Double.Basic

/-!
This module contains the shortest decimal of a double: of the decimals that lie closer to it than to
any other double, one with the fewest digits, and of those the nearest. A decimal half-way to a
neighbour counts if the magnitude is even, because a half is read as the even neighbour.
-/

namespace ScriptHost.Double

/-- The step of the grid of multiples of `10 ^ p`, as a fraction of units. -/
def gridStep (p : Int) : Nat × Nat :=
  if 0 ≤ p then (Nat.pow 10 p.toNat * one, 1) else (one, Nat.pow 10 (-p).toNat)

/-- Whether `c * 10 ^ p` is read as the finite magnitude `m`, which is not zero. -/
def readsAs (m : Nat) (c : Nat) (p : Int) : Bool :=
  let (num, den) := gridStep p
  let low := (unitsAt (m - 1) + unitsAt m) * den
  let high := (unitsAt m + unitsAt (m + 1)) * den
  let point := 2 * c * num
  if m % 2 = 0 then low ≤ point && point ≤ high else low < point && point < high

/--
The multiple of `10 ^ p` nearest to the magnitude `m`, if one of its two neighbours on that grid is
read as `m`. The larger one wins a tie.
-/
def onGrid? (m : Nat) (p : Int) : Option Nat :=
  let (num, den) := gridStep p
  let below := unitsAt m * den / num
  match readsAs m below p, readsAs m (below + 1) p with
  | true, true =>
    if (2 * below + 1) * num ≤ 2 * (unitsAt m * den) then some (below + 1) else some below
  | true, false => some below
  | false, true => some (below + 1)
  | false, false => none

/-- A power of ten that is too coarse for the magnitude `m`, by a few digits at most. -/
def coarsestGrid (m : Nat) : Int :=
  ((unitsAt m).log2 - 1074 : Int) * 30103 / 100000 + 2

/--
The shortest decimal of the finite magnitude `m`, which is not zero, as digits and a power of ten.
Seventeen digits are always enough.
-/
def shortest (m : Nat) : Nat × Int :=
  let start := coarsestGrid m
  let found := (List.range 20).findSome? fun (i : Nat) =>
    let p := start - i
    (onGrid? m p).map fun c => (c, p)
  found.getD (0, 0)

end ScriptHost.Double
