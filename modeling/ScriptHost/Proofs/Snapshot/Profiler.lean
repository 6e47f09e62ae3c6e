import ScriptHost.Proofs.Snapshot.Capture

/-!
This module contains what a profiler does. The way to the shape of the global object, which the report goes,
is there in every snapshot. The numbers of snapshots are all different as long as they do not wrap around.
-/

namespace ScriptHost

namespace Snapshot

variable {h : Heap} {r : Roots} {uid : UInt32} {i : Nat} {e : Entity}

theorem child?_capture (he : (entities h r)[i]? = some e) (n : Nat)
    : (capture h r uid).child? i n = ((references h r e)[n]?).map fun ref => positionOf h r ref.target := by
  unfold child?
  rw [(capture_laidOut h r uid).edgesAt he, List.getElem?_map, Option.map_map]
  rfl

theorem find?_capture (he : (entities h r)[i]? = some e) (kind : EdgeKind) (name : String)
    : (capture h r uid).find? i kind name
        =
      ((references h r e).find? fun ref => ref.kind = kind && ref.name.isCalled name).map fun ref =>
        positionOf h r ref.target := by
  unfold find?
  rw [(capture_laidOut h r uid).edgesAt he, List.find?_map, Option.map_map]
  rfl

theorem node_capture (he : (entities h r)[i]? = some e)
    : (capture h r uid).node i = nodeBehind h r (positionOf h r) ((entities h r).take i) e := by
  unfold node
  rw [Array.getD_eq_getD_getElem?, (capture_laidOut h r uid).node i e he]
  rfl

/-- The shape of an object is behind the first edge of its node, whatever properties the object has. -/
theorem find?_capture_map {id : ObjectId} (he : (entities h r)[i]? = some (.object id))
    : (capture h r uid).find? i .internal "map" = some (positionOf h r (.shape (h.object id).shape)) := by
  rw [find?_capture he]
  rfl

section

variable (hl : h.Linked) (hr : r.Over h)
include hl hr

theorem getElem?_positionOf_reference (he : e ∈ entities h r) {ref : Reference}
    (href : ref ∈ references h r e)
    : (entities h r)[positionOf h r ref.target]? = some ref.target :=
  getElem?_positionOf hl hr (target_mem_entities hl hr he href)

theorem getElem?_positionOf_global
    : (entities h r)[positionOf h r (.object r.global)]? = some (.object r.global) := by
  have hroot := List.mem_of_getElem? (getElem?_entities_zero h r)
  exact getElem?_positionOf_reference hl hr hroot Points.global.mem

theorem getElem?_positionOf_shape {id : ObjectId} (he : (entities h r)[i]? = some (.object id))
    : (entities h r)[positionOf h r (.shape (h.object id).shape)]? = some (.shape (h.object id).shape) :=
  getElem?_positionOf_reference hl hr (List.mem_of_getElem? he) Points.map.mem

/-- The way of the report: from the root to the global object, and on to the shape of that. -/
theorem way_to_shape (uid : UInt32)
    : ∃ g m, (capture h r uid).child? 0 1 = some g ∧ (entities h r)[g]? = some (.object r.global) ∧
        (capture h r uid).find? g .internal "map" = some m ∧
        (entities h r)[m]? = some (.shape (h.object r.global).shape) := by
  have hglobal := getElem?_positionOf_global hl hr
  exact ⟨_, _, child?_capture (getElem?_entities_zero h r) 1, hglobal, find?_capture_map hglobal,
    getElem?_positionOf_shape hl hr hglobal⟩

theorem hauntReport_capture
    : (capture h r uid).hauntReport
        = .ok ⟨(entities h r).length, "system / Map", shapeSize, .hidden, (h.object r.global).stableId⟩ := by
  have hchild : (capture h r uid).child? 0 1 = some (positionOf h r (.object r.global)) :=
    child?_capture (getElem?_entities_zero h r) 1
  have hglobal := getElem?_positionOf_global hl hr
  have hmap : (capture h r uid).find? _ .internal "map" = _ := find?_capture_map hglobal
  have hshape := getElem?_positionOf_shape hl hr hglobal
  have hsize := (capture_laidOut h r uid).size
  unfold hauntReport require
  rw [hchild]
  change (Except.bind (.ok _) _) = _
  dsimp only [Except.bind]
  rw [hmap]
  change Except.ok (HauntReport.mk _ _ _ _ _) = _
  rw [hsize, node_capture hshape, node_capture hglobal]
  rfl

end

end Snapshot

namespace Profiler

variable {h : Heap} {r : Roots}

/-- The report is there for every heap, and no snapshot is held after it, whatever was held before. -/
theorem haunt_eq (hl : h.Linked) (hr : r.Over h) (p : Profiler)
    : p.haunt h r
        =
      (.ok ⟨(Snapshot.entities h r).length, "system / Map", shapeSize, .hidden,
          (h.object r.global).stableId⟩,
        ⟨#[], p.lastUid + 1⟩) :=
  Prod.ext (Snapshot.hauntReport_capture hl hr) rfl

/-- What is done with a profiler. -/
inductive Act where
  | take (heap : Heap) (roots : Roots)
  | haunt (heap : Heap) (roots : Roots)
  | release

def Act.captures : Act → Bool
  | take .. | haunt .. => true
  | release => false

/-- The numbers of the snapshots that are captured, in order. -/
def issued (p : Profiler) : List Act → List UInt32
  | [] => []
  | .take heap roots :: acts => (p.take heap roots).1.uid :: issued (p.take heap roots).2 acts
  | .haunt heap roots :: acts => (p.take heap roots).1.uid :: issued (p.haunt heap roots).2 acts
  | .release :: acts => issued p.release acts

theorem issued_eq {p : Profiler} {n : Nat} (hp : p.lastUid = .ofNat n) (acts : List Act)
    : p.issued acts = (List.range' (n + 1) (acts.countP Act.captures)).map UInt32.ofNat := by
  induction acts generalizing p n with
  | nil => rfl
  | cons a acts ih =>
    have hnext : p.lastUid + 1 = .ofNat (n + 1) := by
      rw [hp, UInt32.ofNat_add]
      rfl
    cases a with
    | release =>
      rw [List.countP_cons_of_neg Bool.false_ne_true]
      exact ih hp
    | take heap roots =>
      rw [List.countP_cons_of_pos rfl, List.range'_succ, List.map_cons, ← hnext]
      exact congrArg (_ :: ·) (ih hnext)
    | haunt heap roots =>
      rw [List.countP_cons_of_pos rfl, List.range'_succ, List.map_cons, ← hnext]
      exact congrArg (_ :: ·) (ih hnext)

/-- The number of a snapshot is not issued again before all others have been. -/
theorem nodup_issued {acts : List Act} (hlt : acts.countP Act.captures < UInt32.size)
    : (issued {} acts).Nodup := by
  rw [issued_eq (n := 0) rfl]
  apply List.Nodup.map_on _ List.nodup_range'
  intro i hi j hj heq
  rw [List.mem_range'_1] at hi hj
  have hnat := congrArg UInt32.toNat heq
  rw [UInt32.toNat_ofNat_of_lt' (by omega), UInt32.toNat_ofNat_of_lt' (by omega)] at hnat
  exact hnat

end Profiler
end ScriptHost
