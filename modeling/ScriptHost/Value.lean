import ScriptHost.Double.Text

/-!
This module contains the values of scripts, and the conversions and comparisons that need no heap.
-/

namespace ScriptHost

/-- An object, given by its position in the order of allocation. -/
structure ObjectId where
  index : Nat
deriving DecidableEq, Hashable, Inhabited

inductive Value where
  | undefined
  | null
  | bool (b : Bool)
  | number (x : Double)
  | string (s : String)
  | object (id : ObjectId)
deriving DecidableEq, Inhabited

namespace Value

/-- Whether a value is `undefined` or `null`, which have no properties. -/
def isNullish : Value → Bool
  | undefined | null => true
  | _ => false

def object? : Value → Option ObjectId
  | object id => some id
  | _ => none

def string? : Value → Option String
  | string s => some s
  | _ => none

def truthy : Value → Bool
  | undefined | null => false
  | bool b => b
  | number x => !(x.isNaN || x.isZero)
  | string s => !s.isEmpty
  | object _ => true

/-- The number of a value; an object has none. -/
def toNumber : Value → Double
  | undefined | object _ => .nan
  | null => .zero false
  | bool b => .ofNat b.toNat
  | number x => x
  | string s => .ofText s

/-- The comparison `===`: numbers by value, all others by identity. -/
def strictEq : Value → Value → Bool
  | number x, number y => x.eq y
  | string s, string t => s == t
  | object a, object b => a == b
  | bool a, bool b => a == b
  | undefined, undefined | null, null => true
  | _, _ => false

/-- The comparison `==`, where an object equals itself only. -/
def looseEq (a b : Value) : Bool :=
  if a.isNullish && b.isNullish then true
  else if a.isNullish || b.isNullish then false
  else
    match a, b with
    | object _, _ | _, object _ => a.strictEq b
    | string s, string t => s == t
    | _, _ => a.toNumber.eq b.toNumber

/-- The text of a value. That of an object does not look into it. -/
def toText : Value → String
  | undefined => "undefined"
  | null => "null"
  | bool b => if b then "true" else "false"
  | number x => x.toText
  | string s => s
  | object id => "[object #" ++ toString id.index ++ "]"

end Value
end ScriptHost
