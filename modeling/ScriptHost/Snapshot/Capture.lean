import ScriptHost.Heap.Basic
import ScriptHost.Snapshot.Basic
import ScriptHost.Snapshot.Explore

/-!
This module contains the capture of the live heap. What lives is what can be reached from the global
object, from the scopes of the running calls and from the waiting microtasks. A snapshot has one node for
every object, shape, text, number, oddball and piece of code among that, in breadth-first order.
-/

namespace ScriptHost

/-- Where the live part of a heap starts. -/
structure Roots where
  global : ObjectId
  /-- The scopes of the running calls, outermost first. -/
  scopes : List ObjectId
  /-- The microtasks that wait, in the order in which they will run. -/
  microtasks : List Value

/-- A value of which there is only one. -/
inductive Oddball where
  | undefined | null | true | false
deriving DecidableEq, Hashable

def Oddball.name : Oddball → String
  | undefined => "undefined"
  | null => "null"
  | true => "true"
  | false => "false"

deriving instance Hashable for ScriptId, Location

/-- What a node of a snapshot stands for. -/
inductive Entity where
  | root
  | gcRoots
  | stackRoots
  | microtaskQueue
  | object (id : ObjectId)
  | shape (id : ShapeId)
  | string (s : String)
  | number (x : Double)
  | oddball (o : Oddball)
  /-- The code of a function literal, which is known by its script and place. -/
  | code (script : ScriptId) (name : Option String) (loc : Location)
deriving DecidableEq, Hashable

namespace Entity

/-- The entity of a value; a small integer has none, as it is kept in place of a reference. -/
def ofValue? : Value → Option Entity
  | .undefined => some (oddball .undefined)
  | .null => some (oddball .null)
  | .bool true => some (oddball .true)
  | .bool false => some (oddball .false)
  | .number x => if x.isSmallInteger then none else some (number x)
  | .string s => some (string s)
  | .object id => some (object id)

end Entity

/-- An edge to an entity. -/
structure Reference where
  kind : EdgeKind
  name : EdgeName
  target : Entity

def Reference.edge (position : Entity → Nat) (r : Reference) : SnapshotEdge :=
  ⟨r.kind, r.name, position r.target⟩

namespace Snapshot

def oddballSize : Nat := 32
def numberSize : Nat := 16
def stringHeaderSize : Nat := 16
def codeHeaderSize : Nat := 48

/-- The id of the root. Nodes that are neither objects nor shapes have even ids above it. -/
def rootId : UInt32 := 1

def internal (name : String) (target : Entity) : Reference :=
  ⟨.internal, .named name, target⟩

/-- The references of a kind by position. Positions without an entity are left out. -/
def elementReferences (values : List Value) : List Reference :=
  values.zipIdx.filterMap fun (v, i) =>
    (Entity.ofValue? v).map fun target => ⟨.element, .index (UInt32.ofNat i), target⟩

/-- The references of the values that have an entity, by name. -/
def namedReferences (kind : EdgeKind) (values : List (String × Value)) : List Reference :=
  values.filterMap fun (name, v) =>
    (Entity.ofValue? v).map fun target => ⟨kind, .named name, target⟩

def contentReferences (roots : Roots) : Content → List Reference
  | .array elements => elementReferences elements.toList
  | .closure f scope script => [
      internal "context" (.object (scope.getD roots.global)),
      internal "code" (.code script f.name f.loc)]
  | .scope parent bindings =>
    namedReferences .contextVariable (bindings.toList.map fun b => (b.name, b.value))
      ++ (parent.toList.map fun id => internal "previous" (.object id))
  | .ordinary | .global | .native _ | .error _ => []

def objectReferences (heap : Heap) (roots : Roots) (id : ObjectId) : List Reference :=
  let o := heap.object id
  internal "map" (.shape o.shape)
    :: namedReferences .property ((heap.shape o.shape).keys.toList.zip o.slots.toList)
    ++ contentReferences roots o.content

def shapeReferences (heap : Heap) (id : ShapeId) : List Reference :=
  let s := heap.shape id
  (s.back.toList.map fun back => internal "back_pointer" (.shape back))
    ++ s.transitions.toList.map fun (key, next) => ⟨.weak, .named key, .shape next⟩

/-- The edges that leave the node of an entity, in order. -/
def references (heap : Heap) (roots : Roots) : Entity → List Reference
  | .root => [
      ⟨.element, .index 0, .gcRoots⟩,
      ⟨.shortcut, .index 1, .object roots.global⟩]
  | .gcRoots => [
      ⟨.element, .index 0, .stackRoots⟩,
      ⟨.element, .index 1, .microtaskQueue⟩]
  | .stackRoots =>
    roots.scopes.zipIdx.map fun (id, i) => ⟨.element, .index (UInt32.ofNat i), .object id⟩
  | .microtaskQueue => elementReferences roots.microtasks
  | .object id => objectReferences heap roots id
  | .shape id => shapeReferences heap id
  | .string _ | .number _ | .oddball _ | .code .. => []

def objectType : Content → NodeType
  | .ordinary | .global | .error _ => .object
  | .array _ => .array
  | .closure .. | .native _ => .closure
  | .scope .. => .hidden

def objectName : Content → String
  | .ordinary => "Object"
  | .global => "global"
  | .array _ => "Array"
  | .closure f _ _ => f.name.getD ""
  | .native b => b.name
  | .error c => c.name
  | .scope .. => "system / Context"

/-- The type, name and size of the node of an entity. -/
def describe (heap : Heap) : Entity → NodeType × String × Nat
  | .root => (.synthetic, "", 0)
  | .gcRoots => (.synthetic, "(GC roots)", 0)
  | .stackRoots => (.synthetic, "(Stack roots)", 0)
  | .microtaskQueue => (.synthetic, "(Microtask queue)", 0)
  | .object id =>
    let o := heap.object id
    (objectType o.content, objectName o.content, o.size)
  | .shape _ => (.hidden, "system / Map", shapeSize)
  | .string s => (.string, s, stringHeaderSize + s.utf8ByteSize)
  | .number x => (.number, x.toText, numberSize)
  | .oddball o => (.hidden, o.name, oddballSize)
  | .code _ name loc => (.code, name.getD "(anonymous)", codeHeaderSize + loc.len)

/-- The id that an entity has in every snapshot. -/
def stableId? (heap : Heap) : Entity → Option UInt32
  | .root => some rootId
  | .object id => some (heap.object id).stableId
  | .shape id => some (heap.shape id).stableId
  | _ => none

/-- How many values an object holds at most, with its code. -/
def valueCount (o : HeapObject) : Nat :=
  o.slots.size + match o.content with
    | .array elements => elements.size
    | .scope _ bindings => bindings.size
    | _ => 1

/-- A number that the entities of a heap do not exceed. -/
def entityBound (heap : Heap) (roots : Roots) : Nat :=
  4 + heap.objects.size + heap.shapes.size + roots.microtasks.length
    + heap.objects.foldl (fun n o => n + valueCount o) 0

/-- Append the node of an entity and its edges. `nextId` is the next id for a node without a stable one. -/
def addNode (heap : Heap) (roots : Roots) (position : Entity → Nat)
    (s : Array SnapshotNode × Array SnapshotEdge × UInt32) (entity : Entity) :
    Array SnapshotNode × Array SnapshotEdge × UInt32 :=
  let (nodes, edges, nextId) := s
  let (type, name, size) := describe heap entity
  let refs := references heap roots entity
  let (id, nextId) := match stableId? heap entity with
    | some id => (id, nextId)
    | none => (nextId, nextId + Heap.stableIdStep)
  let node := ⟨id, type, name, size, edges.size, refs.length⟩
  (nodes.push node, edges ++ refs.map (Reference.edge position), nextId)

/-- The live part of a heap. -/
def capture (heap : Heap) (roots : Roots) (uid : UInt32) : Snapshot :=
  let successors := fun entity => (references heap roots entity).map Reference.target
  let found := explore successors .root (entityBound heap roots)
  let position := fun entity => found.position.getD entity 0
  let (nodes, edges, _) := found.order.foldl (addNode heap roots position) (#[], #[], 2)
  ⟨uid, nodes, edges⟩

end Snapshot
end ScriptHost
