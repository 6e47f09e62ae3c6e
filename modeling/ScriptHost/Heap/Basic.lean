import ScriptHost.Builtin
import ScriptHost.Script
import ScriptHost.Syntax.Basic
import ScriptHost.Value

/-!
This module contains the heap: objects that are never freed, their shapes, and the bytes they take.

A shape is the sequence of keys of an object. Objects that got the same keys in the same order share
their shape: a new key leads from a shape to the next one by a transition, which is made once.
-/

namespace ScriptHost

/-- A shape, given by its position in the order of creation. -/
structure ShapeId where
  index : Nat
deriving DecidableEq, Hashable, Inhabited

/-- Objects of different families never share a shape. -/
inductive ShapeFamily where
  | ordinary | global | array | function | error | scope
deriving DecidableEq, Inhabited

structure Shape where
  /-- The number that heap snapshots know the shape by. -/
  stableId : UInt32
  family : ShapeFamily
  keys : Array String
  /-- The shape with all keys but the last one. -/
  back : Option ShapeId
  /-- The shapes with one more key. -/
  transitions : Array (String × ShapeId)
deriving DecidableEq, Inhabited

def Shape.slot? (s : Shape) (key : String) : Option Nat :=
  s.keys.findIdx? (· == key)

structure Binding where
  name : String
  value : Value
  mutable : Bool
deriving DecidableEq

/-- What an object is, and what it holds beside its properties. -/
inductive Content where
  | ordinary
  | global
  | array (elements : Array Value)
  | closure (function : Function) (scope : Option ObjectId) (script : ScriptId)
  | native (builtin : Builtin)
  | error (c : ErrorClass)
  /-- The variables of a function call or of a handler. -/
  | scope (parent : Option ObjectId) (bindings : Array Binding)
deriving Inhabited

/-! Sizes in bytes. -/

def pointerSize : Nat := 8
def objectHeaderSize : Nat := 24
def arrayHeaderSize : Nat := 32
def closureSize : Nat := 64
def nativeSize : Nat := 56
def scopeHeaderSize : Nat := 16
def shapeSize : Nat := 80

namespace Content

def family : Content → ShapeFamily
  | ordinary => .ordinary
  | global => .global
  | array _ => .array
  | closure .. | native _ => .function
  | error _ => .error
  | scope .. => .scope

def isCallable : Content → Bool
  | closure .. | native _ => true
  | _ => false

def isArray : Content → Bool
  | array _ => true
  | _ => false

def size : Content → Nat
  | ordinary | global | error _ => objectHeaderSize
  | array elements => arrayHeaderSize + elements.size * pointerSize
  | closure .. => closureSize
  | native _ => nativeSize
  | scope _ bindings => scopeHeaderSize + bindings.size * pointerSize

def mapElements (f : Array Value → Array Value) : Content → Content
  | array elements => array (f elements)
  | content => content

def mapBindings (f : Array Binding → Array Binding) : Content → Content
  | scope parent bindings => scope parent (f bindings)
  | content => content

end Content

structure HeapObject where
  /-- The number that heap snapshots know the object by. -/
  stableId : UInt32
  shape : ShapeId
  /-- The values of the properties, in the order of the keys of the shape. -/
  slots : Array Value
  content : Content
deriving Inhabited

/-- The bytes of an object without its shape and the objects it refers to. -/
def HeapObject.size (o : HeapObject) : Nat :=
  o.content.size + o.slots.size * pointerSize

structure Heap where
  objects : Array HeapObject
  shapes : Array Shape
  /-- The shape without keys of each family that has objects. -/
  rootShapes : List (ShapeFamily × ShapeId)
  nextStableId : UInt32
  /-- The bytes that have been charged. -/
  used : Nat
  limit : Nat

/-- The failure of a request for bytes that would exceed the limit of the heap. -/
structure OutOfMemory where
  requested : Nat
  used : Nat
  limit : Nat
deriving DecidableEq

def OutOfMemory.message (e : OutOfMemory) : String :=
  "Out of memory: requested " ++ toString e.requested ++ " bytes, " ++ toString e.used
    ++ " already in use, limit is " ++ toString e.limit

/-- Sizes are numbers below this one. -/
def sizeBound : Nat := UInt64.size

/-- An operation on the heap. A failure keeps what the operation has changed before. -/
abbrev HeapM := ExceptT OutOfMemory (StateM Heap)

namespace Heap

/-- Stable ids are odd. -/
def firstStableId : UInt32 := 101

def stableIdStep : UInt32 := 2

def empty (limit : Nat) : Heap where
  objects := #[]
  shapes := #[]
  rootShapes := []
  nextStableId := firstStableId
  used := 0
  limit := limit

def object (h : Heap) (id : ObjectId) : HeapObject :=
  h.objects.getD id.index default

def content (h : Heap) (id : ObjectId) : Content :=
  (h.object id).content

def shape (h : Heap) (id : ShapeId) : Shape :=
  h.shapes.getD id.index default

def shapeOf (h : Heap) (id : ObjectId) : Shape :=
  h.shape (h.object id).shape

/-- An own property. -/
def property? (h : Heap) (id : ObjectId) (key : String) : Option Value :=
  let o := h.object id
  (h.shape o.shape).slot? key |>.bind fun slot => o.slots[slot]?

def hasProperty (h : Heap) (id : ObjectId) (key : String) : Bool :=
  ((h.shapeOf id).slot? key).isSome

/-- The own keys of an object, in the order in which it got them. -/
def keys (h : Heap) (id : ObjectId) : Array String :=
  (h.shapeOf id).keys

def modifyObject (h : Heap) (id : ObjectId) (f : HeapObject → HeapObject) : Heap :=
  { h with objects := h.objects.modify id.index f }

def modifyContent (h : Heap) (id : ObjectId) (f : Content → Content) : Heap :=
  h.modifyObject id fun o => { o with content := f o.content }

/-- Count bytes as used, if the limit allows it. -/
def charge (bytes : Nat) : HeapM Unit := do
  let h ← get
  if h.limit < h.used + bytes then
    throw ⟨bytes, h.used, h.limit⟩
  set { h with used := h.used + bytes }

def takeStableId : HeapM UInt32 :=
  modifyGet fun h => (h.nextStableId, { h with nextStableId := h.nextStableId + stableIdStep })

def newShape (family : ShapeFamily) (keys : Array String) (back : Option ShapeId) :
    HeapM ShapeId := do
  charge shapeSize
  let stableId ← takeStableId
  modifyGet fun h =>
    (⟨h.shapes.size⟩, { h with shapes := h.shapes.push ⟨stableId, family, keys, back, #[]⟩ })

def rootShape (family : ShapeFamily) : HeapM ShapeId := do
  match (← get).rootShapes.lookup family with
  | some shape => return shape
  | none =>
    let shape ← newShape family #[] none
    modify fun h => { h with rootShapes := h.rootShapes ++ [(family, shape)] }
    return shape

/-- The shape with one more key than `source`. -/
def transition (source : ShapeId) (key : String) : HeapM ShapeId := do
  let shape := (← get).shape source
  match shape.transitions.find? fun t => t.1 == key with
  | some (_, target) => return target
  | none =>
    let target ← newShape shape.family (shape.keys.push key) (some source)
    modify fun h => { h with
      shapes := h.shapes.modify source.index fun s =>
        { s with transitions := s.transitions.push (key, target) } }
    return target

/-- A new object without properties. -/
def allocate (content : Content) : HeapM ObjectId := do
  charge content.size
  let shape ← rootShape content.family
  let stableId ← takeStableId
  modifyGet fun h =>
    (⟨h.objects.size⟩, { h with objects := h.objects.push ⟨stableId, shape, #[], content⟩ })

/-- Store an own property. A new key comes last. -/
def setProperty (id : ObjectId) (key : String) (value : Value) : HeapM Unit := do
  let h ← get
  let source := (h.object id).shape
  match (h.shape source).slot? key with
  | some slot =>
    modify fun h => h.modifyObject id fun o => { o with slots := o.slots.setIfInBounds slot value }
  | none =>
    charge pointerSize
    let target ← transition source key
    modify fun h => h.modifyObject id fun o =>
      { o with shape := target, slots := o.slots.push value }

/-- The elements with `value` at `index`, behind `undefined` in places that did not exist. -/
def putElement (elements : Array Value) (index : Nat) (value : Value) : Array Value :=
  if index < elements.size then elements.setIfInBounds index value
  else (elements ++ Array.replicate (index - elements.size) Value.undefined).push value

/-- The number of elements of an array. -/
def arraySize? (h : Heap) (id : ObjectId) : Option Nat :=
  match h.content id with
  | .array elements => some elements.size
  | _ => none

/-- The position of a name among the bindings of a scope. -/
def bindingIndex? (h : Heap) (id : ObjectId) (name : String) : Option Nat :=
  match h.content id with
  | .scope _ bindings => bindings.findIdx? fun b => b.name == name
  | _ => none

/-- Store an element of an array. Any other object stays as it is. -/
def setElement (id : ObjectId) (index : Nat) (value : Value) : HeapM Unit := do
  match (← get).arraySize? id with
  | some size =>
    if size ≤ index then
      let bytes := (index - size + 1) * pointerSize
      if sizeBound ≤ bytes then
        let h ← get
        throw ⟨sizeBound - 1, h.used, h.limit⟩
      charge bytes
    modify fun h => h.modifyContent id (.mapElements fun elements => putElement elements index value)
  | none => return

/-- Bind a name in a scope. A name that is bound there already is bound anew. -/
def declare (id : ObjectId) (name : String) (value : Value) (mutable : Bool) : HeapM Unit := do
  match (← get).bindingIndex? id name with
  | some i =>
    modify fun h => h.modifyContent id
      (.mapBindings fun bindings => bindings.setIfInBounds i ⟨name, value, mutable⟩)
  | none =>
    charge pointerSize
    modify fun h => h.modifyContent id
      (.mapBindings fun bindings => bindings.push ⟨name, value, mutable⟩)

end Heap
end ScriptHost
