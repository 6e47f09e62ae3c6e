import ScriptHost.Proofs.Heap.Budget
import ScriptHost.Proofs.Snapshot.Layout
import ScriptHost.Proofs.Snapshot.Live

/-!
This module contains that what a snapshot has to depict is just what can be reached from its root along
the edges that it has to have, and that there is no more of it than the bound of the capture says.
-/

namespace ScriptHost.Snapshot

variable {h : Heap} {r : Roots}

theorem LiveObject.has (hl : h.Linked) (hr : r.Over h) {id : ObjectId} (hid : LiveObject h r id)
    : h.Has id := by
  induction hid with
  | global => exact hr.global
  | stack hid => exact hr.scopes _ hid
  | microtask hid => exact hr.microtasks _ hid _ rfl
  | value _ hb ha =>
    unfold HeapObject.values at hb
    rw [List.mem_append] at hb
    rcases hb with hb | hb
    . exact (hl.object ha).slotValues _ (Array.mem_def.2 hb) _ rfl
    . exact (hl.object ha).content.values _ hb _ rfl
  | @parent a b bindings _ hb ha =>
    have hscope := (hl.object ha).content.scope b
    unfold Heap.content at hb
    rw [hb] at hscope
    exact hscope rfl
  | @context a f scope script _ hf ha =>
    cases scope with
    | none => exact hr.global
    | some b =>
      have hscope := (hl.object ha).content.scope b
      unfold Heap.content at hf
      rw [hf] at hscope
      exact hscope rfl

theorem LiveShape.has (hl : h.Linked) (hr : r.Over h) {id : ShapeId} (hid : LiveShape h r id)
    : h.HasShape id := by
  induction hid with
  | map ha => exact (hl.object (ha.has hl hr)).shape
  | back _ hb ha => exact (hl.shape ha).back _ hb
  | transition _ ht ha => exact ((hl.shape ha).transitions _ ht).1

theorem ofValue?_number (x : Double)
    : Entity.ofValue? (.number x) = if x.isSmallInteger then none else some (.number x) := rfl

theorem depicted_of_held {v : Value} {e : Entity} (hv : Held h r v) (he : Entity.ofValue? v = some e)
    : Depicted h r e := by
  cases v with
  | undefined | null =>
    cases he
    exact hv
  | bool b =>
    cases b <;>
    . cases he
      exact hv
  | number x =>
    rw [ofValue?_number] at he
    split at he
    . cases he
    . next hx =>
      cases he
      exact ⟨by simpa using hx, hv⟩
  | string s =>
    cases he
    exact hv
  | object id =>
    cases he
    rcases hv with hid | ⟨a, ha, hid⟩
    . exact .microtask hid
    . exact .value ha hid

theorem held_slot {a : ObjectId} {v : Value} (ha : LiveObject h r a) (hv : v ∈ (h.object a).slots)
    : Held h r v :=
  Or.inr ⟨a, ha, List.mem_append_left _ (Array.mem_def.1 hv)⟩

theorem held_content {a : ObjectId} {v : Value} (ha : LiveObject h r a) (hv : v ∈ (h.content a).values)
    : Held h r v :=
  Or.inr ⟨a, ha, List.mem_append_right _ hv⟩

theorem Depicted.points {e : Entity} {kind : EdgeKind} {name : EdgeName} {target : Entity}
    (hd : Depicted h r e) (hp : Points h r e kind name target)
    : Depicted h r target := by
  cases hp with
  | gcRoots | stackRoots | microtaskQueue => trivial
  | global => exact LiveObject.global
  | stack hid => exact LiveObject.stack (List.mem_of_getElem? hid)
  | microtask hv he => exact depicted_of_held (Or.inl (List.mem_of_getElem? hv)) he
  | map => exact LiveShape.map hd
  | property _ hv he => exact depicted_of_held (held_slot hd (Array.mem_of_getElem? hv)) he
  | element ha hv he =>
    apply depicted_of_held (held_content hd _) he
    rw [ha]
    exact Array.mem_def.1 (Array.mem_of_getElem? hv)
  | binding ha hb he =>
    apply depicted_of_held (held_content hd _) he
    rw [ha]
    exact List.mem_map.2 ⟨_, Array.mem_def.1 hb, rfl⟩
  | previous ha => exact LiveObject.parent hd ha
  | context ha => exact LiveObject.context hd ha
  | code ha => exact ⟨_, _, _, hd, ha, rfl, rfl⟩
  | backPointer hb => exact LiveShape.back hd hb
  | transition ht => exact LiveShape.transition hd ht

theorem depicted_of_successor (e target : Entity) (he : Depicted h r e)
    (htarget : target ∈ successors h r e)
    : Depicted h r target := by
  obtain ⟨ref, href, rfl⟩ := List.mem_map.1 htarget
  rcases Points.of_mem href with hp | ⟨a, elements, i, v, rfl, ha, hv, ht, -, -⟩
  . exact he.points hp
  . apply depicted_of_held (held_content he _) ht
    rw [ha]
    exact Array.mem_def.1 (Array.mem_of_getElem? hv)

theorem Points.successor {e : Entity} {kind : EdgeKind} {name : EdgeName} {target : Entity}
    (hp : Points h r e kind name target) : target ∈ successors h r e :=
  List.mem_map.2 ⟨_, hp.mem, rfl⟩

theorem successor_of_value (hl : h.Linked) {a : ObjectId} (ha : h.Has a) {v : Value} {e : Entity}
    (hv : v ∈ (h.object a).values) (he : Entity.ofValue? v = some e)
    : e ∈ successors h r (.object a) := by
  unfold HeapObject.values at hv
  rw [List.mem_append] at hv
  rcases hv with hv | hv
  . obtain ⟨i, hi, hv⟩ := Array.mem_iff_getElem.1 (Array.mem_def.2 hv)
    -- every slot has a key, as the heap is linked
    have hkey : i < (h.shapeOf a).keys.size := by
      unfold Heap.shapeOf
      rw [(hl.object ha).keys]
      exact hi
    have hp : Points h r (.object a) .property (.named (h.shapeOf a).keys[i]) e :=
      .property (Array.getElem?_eq_getElem hkey) (Array.getElem?_eq_some_iff.2 ⟨hi, hv⟩) he
    exact hp.successor
  . change v ∈ (h.content a).values at hv
    cases hcontent : h.content a with
    | array elements =>
      rw [hcontent] at hv
      obtain ⟨i, hv⟩ := List.mem_iff_getElem?.1 hv
      have hmem : ⟨.element, .index (.ofNat i), e⟩ ∈ contentReferences r (h.content a) := by
        rw [hcontent]
        exact mem_elementReferences_iff.2 ⟨i, v, hv, he, rfl, rfl⟩
      exact List.mem_map.2 ⟨_, List.mem_append_right _ hmem, rfl⟩
    | scope parent bindings =>
      rw [hcontent] at hv
      obtain ⟨b, hb, rfl⟩ := List.mem_map.1 hv
      have hp : Points h r (.object a) .contextVariable (.named b.name) e :=
        .binding hcontent (Array.mem_def.2 hb) he
      exact hp.successor
    | ordinary | global | closure _ _ _ | native _ | error _ =>
      rw [hcontent] at hv
      cases hv

section Closed

variable {S : Entity → Prop} (hl : h.Linked) (hr : r.Over h) (hroot : S .root)
  (hclosed : ∀ e target, S e → target ∈ successors h r e → S target)
include hroot hclosed

theorem mem_stackRoots : S .stackRoots := by
  have hgc := hclosed _ _ hroot Points.gcRoots.successor
  exact hclosed _ _ hgc Points.stackRoots.successor

theorem mem_microtaskQueue : S .microtaskQueue := by
  have hgc := hclosed _ _ hroot Points.gcRoots.successor
  exact hclosed _ _ hgc Points.microtaskQueue.successor

include hl hr

theorem mem_of_liveObject {id : ObjectId} (hid : LiveObject h r id) : S (.object id) := by
  -- one edge for each way in which an object can be live
  induction hid with
  | global => exact hclosed _ _ hroot Points.global.successor
  | stack hid =>
    obtain ⟨i, hi⟩ := List.mem_iff_getElem?.1 hid
    exact hclosed _ _ (mem_stackRoots hroot hclosed) (Points.stack hi).successor
  | microtask hid =>
    obtain ⟨i, hi⟩ := List.mem_iff_getElem?.1 hid
    exact hclosed _ _ (mem_microtaskQueue hroot hclosed) (Points.microtask hi rfl).successor
  | value ha hb ih => exact hclosed _ _ ih (successor_of_value hl (ha.has hl hr) hb rfl)
  | parent _ hb ih => exact hclosed _ _ ih (Points.previous hb).successor
  | context _ hf ih => exact hclosed _ _ ih (Points.context hf).successor

theorem mem_of_liveShape {id : ShapeId} (hid : LiveShape h r id) : S (.shape id) := by
  induction hid with
  | map ha => exact hclosed _ _ (mem_of_liveObject hl hr hroot hclosed ha) Points.map.successor
  | back _ hb ih => exact hclosed _ _ ih (Points.backPointer hb).successor
  | transition _ ht ih => exact hclosed _ _ ih (Points.transition ht).successor

theorem mem_of_held {v : Value} {e : Entity} (hv : Held h r v) (he : Entity.ofValue? v = some e)
    : S e := by
  rcases hv with hv | ⟨a, ha, hv⟩
  . obtain ⟨i, hi⟩ := List.mem_iff_getElem?.1 hv
    exact hclosed _ _ (mem_microtaskQueue hroot hclosed) (Points.microtask hi he).successor
  . have hsuccessor := successor_of_value (r := r) hl (ha.has hl hr) hv he
    exact hclosed _ _ (mem_of_liveObject hl hr hroot hclosed ha) hsuccessor

/-- What is depicted is in every set that has the root and is closed under the edges. -/
theorem Depicted.mem {e : Entity} (hd : Depicted h r e) : S e := by
  cases e with
  | root => exact hroot
  | gcRoots => exact hclosed _ _ hroot Points.gcRoots.successor
  | stackRoots => exact mem_stackRoots hroot hclosed
  | microtaskQueue => exact mem_microtaskQueue hroot hclosed
  | object id => exact mem_of_liveObject hl hr hroot hclosed hd
  | shape id => exact mem_of_liveShape hl hr hroot hclosed hd
  | string s => exact mem_of_held hl hr hroot hclosed hd rfl
  | number x =>
    obtain ⟨hx, hd⟩ := hd
    apply mem_of_held hl hr hroot hclosed hd
    rw [ofValue?_number, if_neg (by simp [hx])]
  | oddball o =>
    apply mem_of_held hl hr hroot hclosed hd
    cases o <;> rfl
  | code script name loc =>
    obtain ⟨id, f, scope, hid, hf, rfl, rfl⟩ := hd
    exact hclosed _ _ (mem_of_liveObject hl hr hroot hclosed hid) (Points.code hf).successor

end Closed

def codeEntities : Content → List Entity
  | .closure f _ script => [.code script f.name f.loc]
  | _ => []

def heldEntities (o : HeapObject) : List Entity :=
  o.values.filterMap Entity.ofValue? ++ codeEntities o.content

/-- All entities that a snapshot could depict. -/
def candidates (h : Heap) (r : Roots) : List Entity :=
  [.root, .gcRoots, .stackRoots, .microtaskQueue]
    ++ (List.range h.objects.size).map (fun i => .object ⟨i⟩)
    ++ (List.range h.shapes.size).map (fun i => .shape ⟨i⟩)
    ++ r.microtasks.filterMap Entity.ofValue?
    ++ h.objects.toList.flatMap heldEntities

theorem length_heldEntities_le (o : HeapObject) : (heldEntities o).length ≤ valueCount o := by
  have hvalues := List.length_filterMap_le Entity.ofValue? o.values
  unfold heldEntities valueCount
  rw [List.length_append]
  unfold HeapObject.values at *
  cases hcontent : o.content <;>
    simp only [hcontent, Content.values, codeEntities, List.length_append, List.length_map,
      Array.length_toList, List.length_nil, List.length_cons] at * <;>
    omega

theorem sum_valueCount (h : Heap)
    : h.objects.foldl (fun n o => n + valueCount o) 0 = (h.objects.toList.map valueCount).sum := by
  rw [← Array.foldl_toList, List.sum_eq_foldl, List.foldl_map]

theorem length_candidates_le (h : Heap) (r : Roots)
    : (candidates h r).length ≤ entityBound h r := by
  have hmicrotasks := List.length_filterMap_le Entity.ofValue? r.microtasks
  have hheld : (h.objects.toList.flatMap heldEntities).length
      ≤ (h.objects.toList.map valueCount).sum := by
    rw [List.length_flatMap]
    apply List.sum_le_sum
    intro o _
    exact length_heldEntities_le o
  unfold candidates entityBound
  rw [sum_valueCount]
  simp only [List.length_append, List.length_map, List.length_range, List.length_cons,
    List.length_nil]
  omega

theorem mem_candidates_of_held (hl : h.Linked) (hr : r.Over h) {v : Value} {e : Entity}
    (hv : Held h r v) (he : Entity.ofValue? v = some e)
    : e ∈ candidates h r := by
  unfold candidates
  rcases hv with hv | ⟨a, ha, hv⟩
  . apply List.mem_append_left
    exact List.mem_append_right _ (List.mem_filterMap.2 ⟨v, hv, he⟩)
  . apply List.mem_append_right
    refine List.mem_flatMap.2 ⟨_, Array.mem_def.1 (Heap.object_mem (ha.has hl hr)), ?_⟩
    exact List.mem_append_left _ (List.mem_filterMap.2 ⟨v, hv, he⟩)

theorem Depicted.mem_candidates (hl : h.Linked) (hr : r.Over h) {e : Entity} (hd : Depicted h r e)
    : e ∈ candidates h r := by
  cases e with
  | root | gcRoots | stackRoots | microtaskQueue => simp [candidates]
  | object id =>
    have hid : id.index < h.objects.size := LiveObject.has hl hr hd
    simp only [candidates, List.mem_append, List.mem_map, List.mem_range]
    exact Or.inl (Or.inl (Or.inl (Or.inr ⟨id.index, hid, rfl⟩)))
  | shape id =>
    have hid : id.index < h.shapes.size := LiveShape.has hl hr hd
    simp only [candidates, List.mem_append, List.mem_map, List.mem_range]
    exact Or.inl (Or.inl (Or.inr ⟨id.index, hid, rfl⟩))
  | string s => exact mem_candidates_of_held hl hr hd rfl
  | number x =>
    obtain ⟨hx, hd⟩ := hd
    apply mem_candidates_of_held hl hr hd
    rw [ofValue?_number, if_neg (by simp [hx])]
  | oddball o =>
    apply mem_candidates_of_held hl hr hd
    cases o <;> rfl
  | code script name loc =>
    obtain ⟨id, f, scope, hid, hf, rfl, rfl⟩ := hd
    apply List.mem_append_right
    refine List.mem_flatMap.2 ⟨_, Array.mem_def.1 (Heap.object_mem (hid.has hl hr)), ?_⟩
    apply List.mem_append_right
    unfold Heap.content at hf
    rw [hf]
    exact List.mem_cons_self

end ScriptHost.Snapshot
