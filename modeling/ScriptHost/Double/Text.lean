import ScriptHost.Double.Shortest
import ScriptHost.Double.Decimal
import ScriptHost.Text.Blank

/-!
This module contains the text of a number and the number of a text. A number is written with the
digits of its shortest decimal, positionally if its absolute value is in `[10 ^ (-6), 10 ^ 21)` and with
an exponent otherwise.
-/

namespace ScriptHost.Double

/-- `digits * 10 ^ p` without an exponent. -/
def positionalText (digits : Nat) (p : Int) : String :=
  let ds := toString digits
  if 0 ≤ p then ds ++ "".pushn '0' p.toNat
  else
    let places := (-p).toNat
    if places < ds.length then
      let cut := ds.length - places
      String.ofList (ds.toList.take cut) ++ "." ++ String.ofList (ds.toList.drop cut)
    else "0." ++ "".pushn '0' (places - ds.length) ++ ds

/-- `digits * 10 ^ p` with one digit before the point. A positive exponent has its sign. -/
def exponentText (digits : Nat) (p : Int) : String :=
  let ds := toString digits
  let exponent := p + (ds.length - 1 : Nat)
  let fraction := String.ofList (ds.toList.drop 1)
  String.ofList (ds.toList.take 1) ++ (if fraction.isEmpty then "" else "." ++ fraction)
    ++ (if exponent < 0 then "e-" else "e+") ++ toString exponent.natAbs

/-- The text of a positive finite magnitude. -/
def magnitudeText (m : Nat) : String :=
  let (digits, p) := shortest m
  let least := (Decimal.toDouble ⟨1, -6⟩).magnitude
  let bound := (Decimal.toDouble ⟨1, 21⟩).magnitude
  if least ≤ m && m < bound then positionalText digits p else exponentText digits p

/-- Both zeros are written alike, and so are all NaN. -/
def toText (x : Double) : String :=
  if x.isNaN then "NaN"
  else if x.isZero then "0"
  else
    let text := if x.isInfinite then "Infinity" else magnitudeText x.magnitude
    if x.negative then "-" ++ text else text

/-- The number that a text without blanks around it spells; NaN if it spells none. -/
def ofTrimmed (cs : List Char) : Double :=
  match cs with
  | [] => zero false
  | '0' :: 'x' :: digits => (ofHexDigits? digits).getD nan
  | '0' :: 'X' :: digits => (ofHexDigits? digits).getD nan
  | cs =>
    let (negative, cs) := match cs with
      | '+' :: cs => (false, cs)
      | '-' :: cs => (true, cs)
      | cs => (false, cs)
    if cs = "Infinity".toList then infinity negative
    else
      match Decimal.read? cs with
      | some d => if negative then d.toDouble.neg else d.toDouble
      | none => nan

/--
The number that a text spells: blanks around it do not matter, no text at all is zero, and a text
that spells no number is NaN.
-/
def ofText (s : String) : Double :=
  ofTrimmed (Text.trim s.toList)

/-- Whether a number is kept in place of a reference: an integer of 31 bits, but not negative zero. -/
def isSmallInteger (x : Double) : Bool :=
  x.isIntegral && !(x.isZero && x.negative)
    && (if x.negative then x.wholePart ≤ 0x40000000 else x.wholePart < 0x40000000)

end ScriptHost.Double
