import ScriptHost.Snapshot.Capture

/-!
This module contains the profiler, which numbers snapshots and holds them until they are released, and
the report on the shape of the global object.
-/

namespace ScriptHost

structure Profiler where
  held : Array Snapshot := #[]
  lastUid : UInt32 := 0

/-- A lookup of an edge that had to be there. -/
structure LookupMiss where
  source : UInt32
  kind : EdgeKind
  name : String
deriving DecidableEq

def LookupMiss.message (m : LookupMiss) : String :=
  "Heap graph lookup failed: node @" ++ toString m.source ++ " has no " ++ m.kind.name
    ++ " edge '" ++ m.name ++ "'"

/-- What the host tells about the shape of the global object. -/
structure HauntReport where
  nodeCount : Nat
  name : String
  size : Nat
  type : NodeType
  globalId : UInt32
deriving DecidableEq

def HauntReport.text (r : HauntReport) : String :=
  "Nodes count: " ++ toString r.nodeCount
    ++ "\nNode name: " ++ r.name
    ++ "\nNode size: " ++ toString r.size
    ++ "\nNode type: " ++ toString r.type.tag
    ++ "\nGlobal id: @" ++ toString r.globalId
    ++ "\n========================"

namespace Snapshot

def node (s : Snapshot) (position : Nat) : SnapshotNode :=
  s.nodes.getD position default

/-- The node behind an edge that has to be there. -/
def require (s : Snapshot) (position : Nat) (kind : EdgeKind) (name : String) :
    Except LookupMiss Nat :=
  match s.find? position kind name with
  | some target => .ok target
  | none => .error ⟨(s.node position).id, kind, name⟩

/-- The report on the shape of the global object, which the second edge of the root leads to. -/
def hauntReport (s : Snapshot) : Except LookupMiss HauntReport := do
  let global ← match s.child? 0 1 with
    | some global => .ok global
    | none => .error ⟨(s.node 0).id, .shortcut, "1"⟩
  let map := s.node (← s.require global .internal "map")
  return ⟨s.nodes.size, map.name, map.size, map.type, (s.node global).id⟩

end Snapshot

namespace Profiler

/-- Capture a snapshot and hold it. -/
def take (p : Profiler) (heap : Heap) (roots : Roots) : Snapshot × Profiler :=
  let uid := p.lastUid + 1
  let snapshot := Snapshot.capture heap roots uid
  (snapshot, ⟨p.held.push snapshot, uid⟩)

/-- Release all snapshots that are held. -/
def release (p : Profiler) : Profiler :=
  { p with held := #[] }

/-- The report on a new snapshot. No snapshot is held afterwards. -/
def haunt (p : Profiler) (heap : Heap) (roots : Roots) :
    Except LookupMiss HauntReport × Profiler :=
  let (snapshot, p) := p.take heap roots
  (snapshot.hauntReport, p.release)

end Profiler
end ScriptHost
