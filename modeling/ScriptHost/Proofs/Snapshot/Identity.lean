import ScriptHost.Proofs.Heap.Numbering
import ScriptHost.Proofs.Snapshot.Capture

/-!
This module contains the ids of the nodes of snapshots and the places of their edges. An object or a shape
has one id in all snapshots; all other nodes have ids that no object and no shape has.
-/

namespace ScriptHost.Snapshot

variable {h h' : Heap} {r : Roots} {limit : Nat}

/-- An entity that is an object or a shape is one of the heap. -/
def Placed (h : Heap) : Entity → Prop
  | .object id => h.Has id
  | .shape id => h.HasShape id
  | _ => True

theorem Depicted.placed (hl : h.Linked) (hr : r.Over h) {e : Entity} (hd : Depicted h r e)
    : Placed h e := by
  cases e with
  | object id => exact LiveObject.has hl hr hd
  | shape id => exact LiveShape.has hl hr hd
  | _ => trivial

theorem length_objectIds (h : Heap) : h.objectIds.length = h.objects.size := by
  simp [Heap.objectIds]

theorem length_shapeIds (h : Heap) : h.shapeIds.length = h.shapes.size := by
  simp [Heap.shapeIds]

theorem Placed.extends (hext : Heap.Extends h h') {e : Entity} (he : Placed h e) : Placed h' e := by
  cases e with
  | object id =>
    have hlength := hext.objectIds.length_le
    rw [length_objectIds, length_objectIds] at hlength
    exact Nat.lt_of_lt_of_le he hlength
  | shape id =>
    have hlength := hext.shapeIds.length_le
    rw [length_shapeIds, length_shapeIds] at hlength
    exact Nat.lt_of_lt_of_le he hlength
  | _ => trivial

section Capture

variable (hb : h.Built limit) (hlimit : limit ≤ 2 ^ 32) (hr : r.Over h)
  (hlength : (entities h r).length < 2 ^ 30)
include hb hr

theorem target_lt (uid : UInt32) (edge : SnapshotEdge) (hedge : edge ∈ (capture h r uid).edges)
    : edge.target < (capture h r uid).nodes.size := by
  have hl := hb.linked
  have hlaid := capture_laidOut h r uid
  rw [Array.mem_def, hlaid.edges] at hedge
  obtain ⟨e, he, hedge⟩ := List.mem_flatMap.1 hedge
  obtain ⟨ref, href, rfl⟩ := List.mem_map.1 hedge
  have htarget := target_mem_entities hl hr he href
  rw [hlaid.size]
  exact (List.getElem?_eq_some_iff.1 (getElem?_positionOf hl hr htarget)).1

include hlimit hlength

end Capture

end ScriptHost.Snapshot
