import ScriptHost.Double.Rounding

/-!
This module contains arithmetic on doubles. Each operation computes its exact result in units and
rounds it once. An operand that is NaN is the result, the first one if both are.
-/

namespace ScriptHost.Double

/-- Run `f` on operands that are both not NaN. -/
@[inline]
def withNumbers (x y : Double) (f : Unit → Double) : Double :=
  if x.isNaN then x else if y.isNaN then y else f ()

/-- The sum of two numbers that are not NaN. -/
def addNumbers (x y : Double) : Double :=
  if x.isInfinite then
    if y.isInfinite && x.negative != y.negative then invalid else x
  else if y.isInfinite then y
  else
    let sum := x.value + y.value
    -- an exact zero is negative only if both operands are
    let negative := if sum = 0 then x.negative && y.negative else sum < 0
    ofUnits negative sum.natAbs 1

def add (x y : Double) : Double :=
  withNumbers x y fun _ => addNumbers x y

def sub (x y : Double) : Double :=
  withNumbers x y fun _ => addNumbers x y.neg

def mul (x y : Double) : Double :=
  withNumbers x y fun _ =>
    let negative := x.negative != y.negative
    if x.isInfinite || y.isInfinite then
      if x.isZero || y.isZero then invalid else infinity negative
    else ofUnits negative (x.units * y.units) one

def div (x y : Double) : Double :=
  withNumbers x y fun _ =>
    let negative := x.negative != y.negative
    if x.isInfinite then
      if y.isInfinite then invalid else infinity negative
    else if y.isInfinite then zero negative
    else if y.isZero then
      if x.isZero then invalid else infinity negative
    else ofUnits negative (x.units * one) y.units

/-- The remainder of a division that is cut toward zero; it has the sign of the dividend. -/
def rem (x y : Double) : Double :=
  withNumbers x y fun _ =>
    if x.isInfinite || y.isZero then invalid
    else if y.isInfinite then x
    else ofUnits x.negative (x.units % y.units) 1

end ScriptHost.Double
