import ScriptHost.Proofs.Snapshot.Layout
import ScriptHost.Proofs.Snapshot.Reachable
import ScriptHost.Snapshot.Profiler

/-!
This module contains the correctness of the capture: a snapshot is the graph of the live part of its heap.
-/

namespace ScriptHost

variable {h : Heap} {r : Roots}

namespace Snapshot

variable (h r)

variable {h r}

section Entities

variable (hl : h.Linked) (hr : r.Over h)
include hl hr

theorem exploration_progress
    : Exploration.Progress (successors h r) (Depicted h r)
        (explore (successors h r) .root (entityBound h r)).order.size
        (explore (successors h r) .root (entityBound h r)) := by
  have hcandidates : ∀ e, Depicted h r e → e ∈ candidates h r :=
    fun _ he => he.mem_candidates hl hr
  exact explore_progress trivial depicted_of_successor hcandidates (length_candidates_le h r)

theorem nodup_entities : (entities h r).Nodup :=
  (exploration_progress hl hr).valid.nodup

theorem mem_entities_iff (e : Entity) : e ∈ entities h r ↔ Depicted h r e := by
  have hp := exploration_progress hl hr
  unfold entities
  rw [← Array.mem_def]
  constructor
  . exact hp.sound e
  . intro he
    apply he.mem hl hr
    . exact Array.mem_of_getElem? (explore_getElem?_zero (successors h r) .root (entityBound h r))
    . intro e target he htarget
      obtain ⟨i, hi⟩ := Array.mem_iff_getElem?.1 he
      exact hp.expanded i e (Array.getElem?_eq_some_iff.1 hi).1 hi target htarget

theorem getElem?_positionOf {e : Entity} (he : e ∈ entities h r)
    : (entities h r)[positionOf h r e]? = some e := by
  have hp := exploration_progress hl hr
  unfold entities at he ⊢
  rw [← Array.mem_def, ← hp.valid.contains_iff, Std.HashMap.contains_eq_isSome_getElem?,
    Option.isSome_iff_exists] at he
  obtain ⟨i, hi⟩ := he
  have hposition : positionOf h r e = i := by
    unfold positionOf
    rw [Std.HashMap.getD_eq_getD_getElem?, hi]
    rfl
  rw [hposition, Array.getElem?_toList, ← hp.valid.position_eq_some_iff]
  exact hi

theorem target_mem_entities {e : Entity} {ref : Reference} (he : e ∈ entities h r)
    (href : ref ∈ references h r e)
    : ref.target ∈ entities h r := by
  rw [mem_entities_iff hl hr] at he ⊢
  exact depicted_of_successor e ref.target he (List.mem_map_of_mem href)

end Entities

theorem getElem?_entities_zero (h : Heap) (r : Roots) : (entities h r)[0]? = some .root := by
  unfold entities
  rw [Array.getElem?_toList]
  apply explore_getElem?_zero

end Snapshot
end ScriptHost
