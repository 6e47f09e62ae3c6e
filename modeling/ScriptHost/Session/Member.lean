import ScriptHost.Session.Failure

/-!
This module contains the properties of values as scripts read and write them. Beside its own properties
an array has its elements and its length, a function its name and number of parameters, an error its
name, and a text its characters and length.
-/

namespace ScriptHost

/-- Element positions are below this number. -/
def maxArrayIndex : Nat := UInt32.size - 1

/-- The element position that a key is: its decimal digits, without leading zeros. -/
def arrayIndex? (key : String) : Option Nat :=
  if 1 < key.length && key.startsWith "0" || !key.toList.all Char.isDigit then none
  else Text.readNat? maxArrayIndex key

/-- The element position that a value is as a key. -/
def elementIndex? : Value → Option Nat
  | .number x =>
    if (Double.zero false).le x && x.isIntegral && x.lt (.ofNat maxArrayIndex) then some x.wholePart
    else none
  | .string s => arrayIndex? s
  | _ => none

/-- The name that a value without properties has in messages. -/
def nullishName : Value → String
  | .null => "null"
  | _ => "undefined"

namespace Heap

def isArray (h : Heap) (id : ObjectId) : Bool :=
  (h.content id).isArray

def isCallable (h : Heap) (id : ObjectId) : Bool :=
  (h.content id).isCallable

/-- A property that an object has without its own doing. -/
def builtinMember (content : Content) (key : String) : Value :=
  match content with
  | .array elements =>
    if key = "length" then .number (.ofNat elements.size)
    else ((arrayIndex? key).bind fun i => elements[i]?).getD .undefined
  | .closure f _ _ =>
    if key = "name" then .string (f.name.getD "")
    else if key = "length" then .number (.ofNat f.params.length)
    else .undefined
  | .native builtin => if key = "name" then .string builtin.name else .undefined
  | .error c => if key = "name" then .string c.name else .undefined
  | .ordinary | .global | .scope .. => .undefined

def member (h : Heap) (id : ObjectId) (key : String) : Value :=
  match h.property? id key with
  | some v => v
  | none => builtinMember (h.content id) key

end Heap

/-- A property of a text. -/
def stringMember (s : String) (key : String) : Value :=
  if key = "length" then .number (.ofNat s.length)
  else
    match (arrayIndex? key).bind fun i => s.toList[i]? with
    | some c => .string c.toString
    | none => .undefined

namespace Run

def getMember (base : Value) (key : String) (loc : Location) : Run Value := do
  match base with
  | .undefined | .null => raise (.readOfNullish (nullishName base) key) loc
  | .string s => return stringMember s key
  | .object id => return (← get).heap.member id key
  | .bool _ | .number _ => return .undefined

/-- Read at a key that is a value. -/
def getIndex (base key : Value) (loc : Location) : Run Value := do
  match base.object?, elementIndex? key with
  | some id, some i =>
    match (← get).heap.content id with
    | .array elements => return elements[i]?.getD .undefined
    | _ => getMember base (← display key) loc
  | _, _ => getMember base (← display key) loc

/-- Store a property. Values that are no objects take nothing. -/
def setMember (base : Value) (key : String) (value : Value) (loc : Location) : Run Unit := do
  match base with
  | .undefined | .null => raise (.writeToNullish (nullishName base) key) loc
  | .object id =>
    match (← get).heap.isArray id, arrayIndex? key with
    | true, some i => heap loc (Heap.setElement id i value)
    | _, _ => heap loc (Heap.setProperty id key value)
  | .bool _ | .number _ | .string _ => return

/-- Store at a key that is a value. -/
def setIndex (base key value : Value) (loc : Location) : Run Unit := do
  match base.object?, elementIndex? key with
  | some id, some i =>
    if (← get).heap.isArray id then
      heap loc (Heap.setElement id i value)
    else
      setMember base (← display key) value loc
  | _, _ => setMember base (← display key) value loc

end Run
end ScriptHost
