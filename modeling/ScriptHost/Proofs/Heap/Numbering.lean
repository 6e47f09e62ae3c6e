import Mathlib.Data.List.Nodup
import ScriptHost.Proofs.Heap.Budget

/-!
This module contains the numbers that objects and shapes get when they are made. They never change, and
in a heap of no more than 4 GiB there is no end to the new ones.
-/

namespace ScriptHost.Heap

variable {h h' : Heap}

def count (h : Heap) : Nat :=
  h.objects.size + h.shapes.size

def objectIds (h : Heap) : List UInt32 :=
  h.objects.toList.map HeapObject.stableId

def shapeIds (h : Heap) : List UInt32 :=
  h.shapes.toList.map Shape.stableId

def stableIdAt (n : Nat) : UInt32 :=
  UInt32.ofNat (101 + 2 * n)

/-- The ids in use are those that have been given out, each once. -/
structure Numbered (h : Heap) : Prop where
  next : h.nextStableId = stableIdAt h.count
  ids : (h.objectIds ++ h.shapeIds).Perm ((List.range h.count).map stableIdAt)

structure Extends (h h' : Heap) : Prop where
  objectIds : h.objectIds <+: h'.objectIds
  shapeIds : h.shapeIds <+: h'.shapeIds

theorem count_eq_length (h : Heap) : h.count = h.objectIds.length + h.shapeIds.length := by
  simp [count, objectIds, shapeIds]

theorem stableIdAt_succ (n : Nat) : stableIdAt (n + 1) = stableIdAt n + stableIdStep := by
  unfold stableIdAt
  rw [show stableIdStep = UInt32.ofNat 2 from rfl, ← UInt32.ofNat_add]
  rfl

theorem objectIds_modifyObject (h : Heap) (id : ObjectId) {f : HeapObject → HeapObject}
    (hf : ∀ o, (f o).stableId = o.stableId)
    : (h.modifyObject id f).objectIds = h.objectIds := by
  unfold objectIds modifyObject
  rw [Array.toList_modify]
  exact List.map_modify_eq _ _ hf

theorem shapeIds_modifyShape (h : Heap) (id : ShapeId) {f : Shape → Shape}
    (hf : ∀ s, (f s).stableId = s.stableId)
    : (h.modifyShape id f).shapeIds = h.shapeIds := by
  unfold shapeIds modifyShape
  rw [Array.toList_modify]
  exact List.map_modify_eq _ _ hf

theorem shapeIds_addShape (h : Heap) (family : ShapeFamily) (keys : Array String)
    (back : Option ShapeId)
    : (h.addShape family keys back).shapeIds = h.shapeIds ++ [h.nextStableId] := by
  unfold shapeIds addShape
  rw [Array.toList_push, List.map_append]
  rfl

theorem shapeIds_addTransition (h : Heap) (source : ShapeId) (key : String)
    : (h.addTransition source key).shapeIds = h.shapeIds ++ [h.nextStableId] := by
  unfold addTransition
  rw [shapeIds_modifyShape, shapeIds_addShape]
  intro s
  rfl

theorem objectIds_addObject (h : Heap) (content : Content) (shape : ShapeId)
    : (h.addObject content shape).objectIds = h.objectIds ++ [h.nextStableId] := by
  unfold objectIds addObject
  rw [Array.toList_push, List.map_append]
  rfl

theorem Step.ids (hs : Step h h')
    : (h'.nextStableId = h.nextStableId ∧ h'.objectIds = h.objectIds ∧ h'.shapeIds = h.shapeIds) ∨
      (h'.nextStableId = h.nextStableId + stableIdStep ∧ h'.objectIds = h.objectIds ∧
        h'.shapeIds = h.shapeIds ++ [h.nextStableId]) ∨
      (h'.nextStableId = h.nextStableId + stableIdStep ∧
        h'.objectIds = h.objectIds ++ [h.nextStableId] ∧ h'.shapeIds = h.shapeIds) := by
  cases hs with
  | charge => exact Or.inl ⟨rfl, rfl, rfl⟩
  | rootShape => exact Or.inr (Or.inl ⟨rfl, rfl, shapeIds_addShape h _ _ _⟩)
  | transition => exact Or.inr (Or.inl ⟨rfl, rfl, shapeIds_addTransition h _ _⟩)
  | object => exact Or.inr (Or.inr ⟨rfl, objectIds_addObject h _ _, rfl⟩)
  | putSlot => exact Or.inl ⟨rfl, objectIds_modifyObject h _ (fun _ => rfl), rfl⟩
  | addSlot => exact Or.inl ⟨rfl, objectIds_modifyObject h _ (fun _ => rfl), rfl⟩
  | putElement => exact Or.inl ⟨rfl, objectIds_modifyObject h _ (fun _ => rfl), rfl⟩
  | putBinding => exact Or.inl ⟨rfl, objectIds_modifyObject h _ (fun _ => rfl), rfl⟩
  | addBinding => exact Or.inl ⟨rfl, objectIds_modifyObject h _ (fun _ => rfl), rfl⟩

theorem Step.extends (hs : Step h h') : Extends h h' := by
  rcases hs.ids with ⟨-, hobjects, hshapes⟩ | ⟨-, hobjects, hshapes⟩ | ⟨-, hobjects, hshapes⟩
  . exact ⟨⟨[], by simp [hobjects]⟩, ⟨[], by simp [hshapes]⟩⟩
  . exact ⟨⟨[], by simp [hobjects]⟩, ⟨_, hshapes.symm⟩⟩
  . exact ⟨⟨_, hobjects.symm⟩, ⟨[], by simp [hshapes]⟩⟩

theorem Steps.extends (hs : Steps h h') : Extends h h' := by
  induction hs with
  | refl => exact ⟨List.prefix_rfl, List.prefix_rfl⟩
  | tail _ hs ih =>
    exact ⟨ih.objectIds.trans hs.extends.objectIds, ih.shapeIds.trans hs.extends.shapeIds⟩

theorem Numbered.concat (hn : h.Numbered) (hnext : h'.nextStableId = h.nextStableId + stableIdStep)
    (hids : (h'.objectIds ++ h'.shapeIds).Perm (h.objectIds ++ h.shapeIds ++ [h.nextStableId]))
    : h'.Numbered := by
  have hcount : h'.count = h.count + 1 := by
    have hlength := hids.length_eq
    simp only [List.length_append, List.length_singleton, ← count_eq_length] at hlength
    exact hlength
  refine ⟨?_, ?_⟩
  . rw [hcount, stableIdAt_succ, hnext, hn.next]
  . rw [hcount, List.range_succ, List.map_append, List.map_singleton, ← hn.next]
    exact hids.trans (hn.ids.append_right _)

theorem Numbered.step (hn : h.Numbered) (hs : Step h h') : h'.Numbered := by
  rcases hs.ids with ⟨hnext, hobjects, hshapes⟩ | ⟨hnext, hobjects, hshapes⟩ |
    ⟨hnext, hobjects, hshapes⟩
  . have hcount : h'.count = h.count := by
      rw [count_eq_length, count_eq_length, hobjects, hshapes]
    refine ⟨?_, ?_⟩
    . rw [hnext, hcount, hn.next]
    . rw [hobjects, hshapes, hcount]
      exact hn.ids
  . apply hn.concat hnext
    rw [hobjects, hshapes, List.append_assoc]
  . -- the id of an object comes to stand before those of the shapes
    apply hn.concat hnext
    rw [hobjects, hshapes, List.append_assoc, List.append_assoc]
    exact List.perm_append_comm.append_left _

theorem Numbered.steps (hn : h.Numbered) (hs : Steps h h') : h'.Numbered := by
  induction hs with
  | refl => exact hn
  | tail _ hs ih => exact ih.step hs

theorem size_object_ge (o : HeapObject) : 16 ≤ o.size := by
  unfold HeapObject.size
  cases o.content <;>
    simp only [Content.size, objectHeaderSize, arrayHeaderSize, closureSize, nativeSize,
      scopeHeaderSize, pointerSize] <;>
    omega

theorem count_le_size (h : Heap) : 16 * h.count ≤ h.size := by
  have hsum := List.card_nsmul_le_sum (h.objects.toList.map HeapObject.size) 16
    (by simp [size_object_ge])
  simp only [List.length_map, Array.length_toList, Nat.nsmul_eq_mul] at hsum
  unfold count size shapeSize
  omega

variable {limit : Nat}

end ScriptHost.Heap
