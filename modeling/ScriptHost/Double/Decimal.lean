import ScriptHost.Double.Arithmetic
import ScriptHost.Text.Digits

/-!
This module contains the reading of numbers: decimal numerals with an optional fraction and exponent,
and runs of hexadecimal digits. Number literals and numeric strings share these forms.
-/

namespace ScriptHost

/-- The number `digits * 10 ^ exponent`. -/
structure Decimal where
  digits : Nat
  exponent : Int
deriving DecidableEq

namespace Decimal

/--
The double nearest to a decimal. An exponent that puts every such number beyond the doubles is
settled without its power of ten.
-/
def toDouble (d : Decimal) : Double :=
  if d.digits = 0 then Double.zero false
  else if 310 < d.exponent then Double.infinity false
  else if d.exponent < -(400 + d.digits.log2 : Int) then Double.zero false
  else if 0 ≤ d.exponent then
    Double.ofUnits false (d.digits * Nat.pow 10 d.exponent.toNat * Double.one) 1
  else Double.ofUnits false (d.digits * Double.one) (Nat.pow 10 (-d.exponent).toNat)

/-- An exponent that has come so far is out of reach of any usual number of digits. -/
def exponentBound : Nat := 65536

/-- The number that an exponent's digits denote. Once it has come to the bound, more digits do not count. -/
def ofExponentDigits (digits : List Char) : Nat :=
  digits.foldl (fun n c => if n < exponentBound then n * 10 + (c.toNat - '0'.toNat) else n) 0

/-- The exponent part that a text starts with, and its length. -/
def scanExponent : List Char → Int × Nat
  | [] => (0, 0)
  | e :: cs =>
    if e = 'e' ∨ e = 'E' then
      let (negative, signLength, cs) := match cs with
        | '+' :: cs => (false, 1, cs)
        | '-' :: cs => (true, 1, cs)
        | cs => (false, 0, cs)
      let digits := cs.takeWhile Char.isDigit
      if digits.isEmpty then (0, 0)
      else
        let n := ofExponentDigits digits
        (if negative then -(n : Int) else n, 1 + signLength + digits.length)
    else (0, 0)

/--
The longest numeral that a text starts with, and its length: digits, a point and more digits, and an
exponent. The fraction and the exponent may be missing, and so may the digits on one side of the
point.
-/
def scan (cs : List Char) : Option (Decimal × Nat) :=
  let whole := cs.takeWhile Char.isDigit
  let rest := cs.dropWhile Char.isDigit
  let (point, fraction, rest) := match rest with
    | '.' :: rest => (1, rest.takeWhile Char.isDigit, rest.dropWhile Char.isDigit)
    | rest => (0, [], rest)
  if whole.isEmpty && fraction.isEmpty then none
  else
    let (exponent, exponentLength) := scanExponent rest
    some (⟨Text.ofDecimalDigits (whole ++ fraction), exponent - fraction.length⟩,
      whole.length + point + fraction.length + exponentLength)

/-- The decimal that a whole text spells. -/
def read? (cs : List Char) : Option Decimal :=
  match scan cs with
  | some (d, n) => if n = cs.length then some d else none
  | none => none

end Decimal

namespace Double

/--
The number that hexadecimal digits denote. Every digit multiplies by sixteen and adds, and each of the
two steps rounds.
-/
def ofHexDigits? (digits : List Char) : Option Double :=
  if digits.isEmpty then none
  else digits.foldlM (fun x c => (Text.hexDigit? c).map fun d => (x.mul (ofNat 16)).add (ofNat d))
    (zero false)

end Double
end ScriptHost
