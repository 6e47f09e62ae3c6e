import ScriptHost.Session.Member

/-!
This module contains the operators of scripts on values. An object takes part with its text.
-/

namespace ScriptHost

namespace Value

/-- The order of two values that are no objects: of texts by their characters, else of numbers. -/
def compare? (a b : Value) : Option Ordering :=
  match a, b with
  | .string s, .string t => some (if s < t then .lt else if s = t then .eq else .gt)
  | a, b => a.toNumber.compare? b.toNumber

/-- The sum of two values that are no objects. It is a text if one of them is. -/
def add (a b : Value) : Value :=
  if a.string?.isSome || b.string?.isSome then .string (a.toText ++ b.toText)
  else .number (a.toNumber.add b.toNumber)

end Value

/-- The name of the type of a value. -/
def Heap.typeName (h : Heap) : Value → String
  | .undefined => "undefined"
  | .null => "object"
  | .bool _ => "boolean"
  | .number _ => "number"
  | .string _ => "string"
  | .object id => if h.isCallable id then "function" else "object"

namespace Run

/-- The value itself, or the text of an object. -/
def toPrimitive (v : Value) : Run Value := do
  match v with
  | .object _ => return .string (← display v)
  | v => return v

def toNumber (v : Value) : Run Double := do
  return (← toPrimitive v).toNumber

def looseEq (a b : Value) : Run Bool := do
  match a.object?, b.object? with
  | some _, none => if b.isNullish then return a.looseEq b else return (← toPrimitive a).looseEq b
  | none, some _ => if a.isNullish then return a.looseEq b else return (← toPrimitive b).looseEq a
  | _, _ => return a.looseEq b

@[inline]
def arithmetic (f : Double → Double → Double) (a b : Value) : Run Value := do
  let x ← toNumber a
  let y ← toNumber b
  return .number (f x y)

@[inline]
def comparison (test : Option Ordering → Bool) (a b : Value) : Run Value := do
  let a ← toPrimitive a
  let b ← toPrimitive b
  return .bool (test (a.compare? b))

/-- The value of an operator on the values of its operands. -/
def binary (op : BinaryOp) (a b : Value) : Run Value := do
  match op with
  | .add =>
    let a ← toPrimitive a
    let b ← toPrimitive b
    return a.add b
  | .sub => arithmetic .sub a b
  | .mul => arithmetic .mul a b
  | .div => arithmetic .div a b
  | .mod => arithmetic .rem a b
  | .eq => return .bool (← looseEq a b)
  | .ne => return .bool !(← looseEq a b)
  | .strictEq => return .bool (a.strictEq b)
  | .strictNe => return .bool !(a.strictEq b)
  | .lt => comparison (· == some .lt) a b
  | .gt => comparison (· == some .gt) a b
  | .le => comparison (fun o => o == some .lt || o == some .eq) a b
  | .ge => comparison (fun o => o == some .gt || o == some .eq) a b
  | .and => return if a.truthy then b else a
  | .or => return if a.truthy then a else b

end Run
end ScriptHost
