import ScriptHost.Text.Digits

/-!
This module contains heap snapshots as graphs. Nodes and edges stand in two arrays, and the edges that
leave a node are consecutive.
-/

namespace ScriptHost

/-- The type of a node. Every tag of eight bits is a type, known or not. -/
inductive NodeType where
  | hidden | array | string | object | code | closure | regExp | number | native | synthetic
  | consString | slicedString | symbol | bigInt | objectShape
  | other (tag : UInt8)
deriving DecidableEq, Inhabited

namespace NodeType

/-- The types that have a name, in the order of their tags. -/
def named : List NodeType := [
  hidden, array, string, object, code, closure, regExp, number, native, synthetic,
  consString, slicedString, symbol, bigInt, objectShape]

def tag : NodeType → UInt8
  | hidden => 0
  | array => 1
  | string => 2
  | object => 3
  | code => 4
  | closure => 5
  | regExp => 6
  | number => 7
  | native => 8
  | synthetic => 9
  | consString => 10
  | slicedString => 11
  | symbol => 12
  | bigInt => 13
  | objectShape => 14
  | other tag => tag

def ofTag (tag : UInt8) : NodeType :=
  named.getD tag.toNat (other tag)

def name : NodeType → String
  | hidden => "hidden"
  | array => "array"
  | string => "string"
  | object => "object"
  | code => "code"
  | closure => "closure"
  | regExp => "regexp"
  | number => "number"
  | native => "native"
  | synthetic => "synthetic"
  | consString => "concatenated string"
  | slicedString => "sliced string"
  | symbol => "symbol"
  | bigInt => "bigint"
  | objectShape => "object shape"
  | other tag => "type " ++ toString tag

end NodeType

/-- The kind of an edge. Every tag of eight bits is a kind, known or not. -/
inductive EdgeKind where
  | contextVariable
  | element
  | property
  | internal
  | hidden
  | shortcut
  | weak
  | other (tag : UInt8)
deriving DecidableEq

namespace EdgeKind

/-- The kinds that have a name, in the order of their tags. -/
def named : List EdgeKind := [
  contextVariable, element, property, internal, hidden, shortcut, weak]

def tag : EdgeKind → UInt8
  | contextVariable => 0
  | element => 1
  | property => 2
  | internal => 3
  | hidden => 4
  | shortcut => 5
  | weak => 6
  | other tag => tag

def ofTag (tag : UInt8) : EdgeKind :=
  named.getD tag.toNat (other tag)

def name : EdgeKind → String
  | contextVariable => "context"
  | element => "element"
  | property => "property"
  | internal => "internal"
  | hidden => "hidden"
  | shortcut => "shortcut"
  | weak => "weak"
  | other tag => "kind " ++ toString tag

end EdgeKind

inductive EdgeName where
  | named (name : String)
  | index (i : UInt32)
deriving DecidableEq

namespace EdgeName

def text : EdgeName → String
  | named name => name
  | index i => toString i

/-- Whether a text is this name. An index may be written with a plus sign, but not with leading zeros. -/
def isCalled (n : EdgeName) (text : String) : Bool :=
  match n with
  | named name => name == text
  | index i =>
    Text.readNat? UInt32.size text == some i.toNat && !(1 < text.length && text.startsWith "0")

end EdgeName

structure SnapshotNode where
  /-- Objects and shapes have the same id in all snapshots. -/
  id : UInt32
  type : NodeType
  name : String
  size : Nat
  /-- The position of the first edge that leaves the node. -/
  firstEdge : Nat
  edgeCount : Nat
deriving DecidableEq, Inhabited

structure SnapshotEdge where
  kind : EdgeKind
  name : EdgeName
  /-- The position of the node that the edge leads to. -/
  target : Nat
deriving DecidableEq

structure Snapshot where
  uid : UInt32
  nodes : Array SnapshotNode
  edges : Array SnapshotEdge

namespace Snapshot

/-- The edges that leave the node at a position, in order. -/
def edgesAt (s : Snapshot) (position : Nat) : List SnapshotEdge :=
  match s.nodes[position]? with
  | some node => (s.edges.extract node.firstEdge (node.firstEdge + node.edgeCount)).toList
  | none => []

/-- The position of the node with an id. -/
def nodeById? (s : Snapshot) (id : UInt32) : Option Nat :=
  s.nodes.findIdx? fun node => node.id == id

/-- The node that the `n`-th edge from a position leads to. -/
def child? (s : Snapshot) (position n : Nat) : Option Nat :=
  (s.edgesAt position)[n]?.map SnapshotEdge.target

/-- The node that the first edge of a kind and name leads to. -/
def find? (s : Snapshot) (position : Nat) (kind : EdgeKind) (name : String) : Option Nat :=
  (s.edgesAt position).find? (fun edge => edge.kind = kind && edge.name.isCalled name)
    |>.map SnapshotEdge.target

end Snapshot
end ScriptHost
