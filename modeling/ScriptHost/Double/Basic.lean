/-!
This module contains double-precision binary numbers as bit patterns. The lower 63 bits of a pattern,
its magnitude, count the doubles between zero and the number, so the order of magnitudes is the order
of absolute values. Every finite double is a whole number of units, a unit being the least positive
double, `2 ^ (-1074)`.
-/

namespace ScriptHost

/-- A double-precision number, given by its bits. Patterns that differ are different values here. -/
structure Double where
  bits : UInt64
deriving DecidableEq, Hashable

namespace Double

/-- The number of magnitudes, `2 ^ 63`. The patterns from there on are negative. -/
abbrev magnitudeCount : Nat := 0x8000000000000000

/-- The number of magnitudes with the same exponent, `2 ^ 52`. -/
abbrev binadeSize : Nat := 0x10000000000000

def negative (x : Double) : Bool :=
  magnitudeCount ≤ x.bits.toNat

def magnitude (x : Double) : Nat :=
  x.bits.toNat % magnitudeCount

/-- The double of a sign and a magnitude. -/
def ofMagnitude (negative : Bool) (m : Nat) : Double :=
  ⟨UInt64.ofNat (if negative then magnitudeCount + m else m)⟩

/-- The magnitude of the infinities. A finite number has a smaller one and a NaN a larger one. -/
def infiniteMagnitude : Nat := 0x7ff * binadeSize

/-- The magnitude of the NaN that operations give. -/
def quietMagnitude : Nat := infiniteMagnitude + binadeSize / 2

def isNaN (x : Double) : Bool :=
  infiniteMagnitude < x.magnitude

def isInfinite (x : Double) : Bool :=
  x.magnitude = infiniteMagnitude

def isFinite (x : Double) : Bool :=
  x.magnitude < infiniteMagnitude

/-- Both zeros. -/
def isZero (x : Double) : Bool :=
  x.magnitude = 0

def zero (negative : Bool) : Double :=
  ofMagnitude negative 0

def infinity (negative : Bool) : Double :=
  ofMagnitude negative infiniteMagnitude

/-- The NaN that constants and failed conversions give. -/
def nan : Double :=
  ofMagnitude false quietMagnitude

/-- The NaN of an operation without a result, such as zero divided by zero. -/
def invalid : Double :=
  ofMagnitude true quietMagnitude

/-- How many times the distance to the next magnitude has doubled, seen from zero. -/
def scale (m : Nat) : Nat :=
  m / binadeSize - 1

def significand (m : Nat) : Nat :=
  m - scale m * binadeSize

/-- The absolute value at a finite magnitude, in units. -/
def unitsAt (m : Nat) : Nat :=
  significand m <<< scale m

/-- The absolute value of a finite number, in units. -/
def units (x : Double) : Nat :=
  unitsAt x.magnitude

/-- The number one, in units. -/
def one : Nat := 1 <<< 1074

/-- The value of a finite number, in units. -/
def value (x : Double) : Int :=
  if x.negative then -(x.units : Int) else x.units

def neg (x : Double) : Double :=
  ofMagnitude (!x.negative) x.magnitude

def isIntegral (x : Double) : Bool :=
  x.isFinite && x.units % one = 0

/-- The whole part of the absolute value of a finite number. -/
def wholePart (x : Double) : Nat :=
  x.units / one

/-- The place of a number that is not NaN in the order of the doubles. Both zeros have place zero. -/
def place (x : Double) : Int :=
  if x.negative then -(x.magnitude : Int) else x.magnitude

/-- The order of two numbers, `none` if one of them is NaN. -/
def compare? (x y : Double) : Option Ordering :=
  if x.isNaN || y.isNaN then none else some (compare x.place y.place)

/-- Equality of values: NaN equals nothing, and the zeros are equal. -/
def eq (x y : Double) : Bool :=
  x.compare? y == some .eq

def lt (x y : Double) : Bool :=
  x.compare? y == some .lt

def le (x y : Double) : Bool :=
  x.lt y || x.eq y

theorem magnitude_lt (x : Double) : x.magnitude < magnitudeCount :=
  Nat.mod_lt _ (by decide)

theorem magnitude_ofMagnitude {neg : Bool} {m : Nat} (h : m < magnitudeCount) :
    (ofMagnitude neg m).magnitude = m := by
  unfold magnitudeCount at h
  cases neg <;> simp [ofMagnitude, magnitude, magnitudeCount] <;> omega

theorem negative_ofMagnitude {neg : Bool} {m : Nat} (h : m < magnitudeCount) :
    (ofMagnitude neg m).negative = neg := by
  unfold magnitudeCount at h
  cases neg <;> simp [ofMagnitude, negative, magnitudeCount] <;> omega

theorem ofMagnitude_magnitude (x : Double) : ofMagnitude x.negative x.magnitude = x := by
  have h := x.bits.toNat_lt
  obtain ⟨bits⟩ := x
  simp only [ofMagnitude, negative, magnitude, magnitudeCount]
  congr 1
  apply UInt64.toNat_inj.1
  simp only [UInt64.toNat_ofNat', decide_eq_true_eq]
  split <;> (simp only at h; omega)

end Double
end ScriptHost
