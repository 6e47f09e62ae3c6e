import ScriptHost.Proofs.Heap.Operation

/-!
This module contains what the objects and shapes of a heap refer to, and that each change of a heap keeps
its references inside of it. The keys of the shape of an object name its slots one by one.
-/

namespace ScriptHost

namespace Content

/-- The values that an object holds beside its properties. -/
def values : Content → List Value
  | array elements => elements.toList
  | scope _ bindings => bindings.toList.map Binding.value
  | _ => []

def scope? : Content → Option ObjectId
  | closure _ parent _ | scope parent _ => parent
  | _ => none

end Content

def HeapObject.values (o : HeapObject) : List Value :=
  o.slots.toList ++ o.content.values

theorem Array.eq_or_eq_of_mem_modify {α : Type} {xs : Array α} {i : Nat} {f : α → α} {x : α}
    (hx : x ∈ xs.modify i f)
    : x ∈ xs ∨ ∃ y, xs[i]? = some y ∧ x = f y := by
  rw [Array.mem_iff_getElem?] at hx
  obtain ⟨j, hj⟩ := hx
  rw [Array.getElem?_modify] at hj
  split at hj
  . next hij =>
    subst hij
    rw [Option.map_eq_some_iff] at hj
    obtain ⟨y, hy, rfl⟩ := hj
    exact Or.inr ⟨y, hy, rfl⟩
  . exact Or.inl (Array.mem_of_getElem? hj)

theorem List.map_modify_eq {α β : Type} (xs : List α) (i : Nat) {f : α → α} {g : α → β}
    (hf : ∀ x, g (f x) = g x)
    : (xs.modify i f).map g = xs.map g := by
  induction xs generalizing i with
  | nil => simp
  | cons x xs ih =>
    cases i with
    | zero => simp [hf]
    | succ i => simp [ih]

namespace Heap

variable {h h' : Heap}

def Has (h : Heap) (id : ObjectId) : Prop :=
  id.index < h.objects.size

def HasShape (h : Heap) (id : ShapeId) : Prop :=
  id.index < h.shapes.size

def HasValue (h : Heap) (v : Value) : Prop :=
  ∀ id, v = .object id → h.Has id

instance (h : Heap) (id : ObjectId) : Decidable (h.Has id) :=
  inferInstanceAs (Decidable (id.index < h.objects.size))

theorem hasValue_object {id : ObjectId} : h.HasValue (.object id) ↔ h.Has id := by
  simp [HasValue]

theorem hasValue_of_object?_eq_none {v : Value} (hv : v.object? = none) : h.HasValue v := by
  rintro id rfl
  cases hv

instance (h : Heap) : (v : Value) → Decidable (h.HasValue v)
  | .object _ => decidable_of_iff _ hasValue_object.symm
  | .undefined | .null | .bool _ | .number _ | .string _ => .isTrue (hasValue_of_object?_eq_none rfl)

structure LinkedContent (h : Heap) (c : Content) : Prop where
  values : ∀ v ∈ c.values, h.HasValue v
  scope : ∀ id ∈ c.scope?, h.Has id

instance (h : Heap) (c : Content) : Decidable (h.LinkedContent c) :=
  decidable_of_iff ((∀ v ∈ c.values, h.HasValue v) ∧ ∀ id ∈ c.scope?, h.Has id)
    ⟨fun hc => ⟨hc.1, hc.2⟩, fun hc => ⟨hc.1, hc.2⟩⟩

/-- The object refers to objects and shapes of the heap, and has a slot for every key of its shape. -/
structure LinkedObject (h : Heap) (o : HeapObject) : Prop where
  shape : h.HasShape o.shape
  keys : (h.shape o.shape).keys.size = o.slots.size
  slotValues : ∀ v ∈ o.slots, h.HasValue v
  content : h.LinkedContent o.content

/-- The shape refers to shapes of the heap, and its transitions add their keys. -/
structure LinkedShape (h : Heap) (s : Shape) : Prop where
  back : ∀ id ∈ s.back, h.HasShape id
  transitions : ∀ t ∈ s.transitions, h.HasShape t.2 ∧ (h.shape t.2).keys = s.keys.push t.1

structure Linked (h : Heap) : Prop where
  objects : ∀ o ∈ h.objects, h.LinkedObject o
  shapes : ∀ s ∈ h.shapes, h.LinkedShape s
  rootShapes : ∀ r ∈ h.rootShapes, h.HasShape r.2 ∧ (h.shape r.2).keys = #[]

theorem object_mem {id : ObjectId} (hid : h.Has id) : h.object id ∈ h.objects := by
  unfold object Has at *
  rw [Array.getD_eq_getD_getElem?, Array.getElem?_eq_getElem hid]
  apply Array.getElem_mem

theorem object_of_not_has {id : ObjectId} (hid : ¬ h.Has id) : h.object id = default := by
  unfold object
  unfold Has at hid
  rw [Array.getD_eq_getD_getElem?, Array.getElem?_eq_none (Nat.not_lt.1 hid)]
  rfl

theorem has_of_content_ne {id : ObjectId} (hcontent : h.content id ≠ .ordinary) : h.Has id := by
  apply Classical.byContradiction
  intro hid
  apply hcontent
  unfold content
  rw [object_of_not_has hid]
  rfl

theorem has_of_content {id : ObjectId} {content : Content} (hcontent : h.content id = content)
    (hne : content ≠ .ordinary)
    : h.Has id :=
  has_of_content_ne (hcontent ▸ hne)

theorem shape_mem {id : ShapeId} (hid : h.HasShape id) : h.shape id ∈ h.shapes := by
  unfold shape HasShape at *
  rw [Array.getD_eq_getD_getElem?, Array.getElem?_eq_getElem hid]
  apply Array.getElem_mem

theorem Linked.object (hl : h.Linked) {id : ObjectId} (hid : h.Has id)
    : h.LinkedObject (h.object id) :=
  hl.objects _ (object_mem hid)

theorem Linked.shape (hl : h.Linked) {id : ShapeId} (hid : h.HasShape id)
    : h.LinkedShape (h.shape id) :=
  hl.shapes _ (shape_mem hid)

/-- Every object and shape of one heap is also in the other one, where the shape has the same keys. -/
structure Grows (h h' : Heap) : Prop where
  objects : h.objects.size ≤ h'.objects.size
  shapes : ∀ id, h.HasShape id → h'.HasShape id ∧ (h'.shape id).keys = (h.shape id).keys

namespace Grows

theorem trans {h'' : Heap} (hg : Grows h h') (hg' : Grows h' h'') : Grows h h'' where
  objects := Nat.le_trans hg.objects hg'.objects
  shapes := by
    intro id hid
    obtain ⟨hmem, hkeys⟩ := hg.shapes id hid
    obtain ⟨hmem', hkeys'⟩ := hg'.shapes id hmem
    exact ⟨hmem', hkeys'.trans hkeys⟩

theorem has (hg : Grows h h') {id : ObjectId} (hid : h.Has id) : h'.Has id :=
  Nat.lt_of_lt_of_le hid hg.objects

theorem hasValue (hg : Grows h h') {v : Value} (hv : h.HasValue v) : h'.HasValue v := by
  intro id hid
  exact hg.has (hv id hid)

theorem linkedContent (hg : Grows h h') {c : Content} (hc : h.LinkedContent c)
    : h'.LinkedContent c where
  values := fun v hv => hg.hasValue (hc.values v hv)
  scope := fun id hid => hg.has (hc.scope id hid)

theorem linkedObject (hg : Grows h h') {o : HeapObject} (ho : h.LinkedObject o)
    : h'.LinkedObject o where
  shape := (hg.shapes _ ho.shape).1
  keys := by rw [(hg.shapes _ ho.shape).2, ho.keys]
  slotValues := fun v hv => hg.hasValue (ho.slotValues v hv)
  content := hg.linkedContent ho.content

theorem linkedShape (hg : Grows h h') {s : Shape} (hs : h.LinkedShape s) : h'.LinkedShape s where
  back := fun id hid => (hg.shapes id (hs.back id hid)).1
  transitions := by
    intro t ht
    obtain ⟨hmem, hkeys⟩ := hs.transitions t ht
    rw [(hg.shapes _ hmem).2]
    exact ⟨(hg.shapes _ hmem).1, hkeys⟩

theorem linked (hg : Grows h h') (hl : h.Linked)
    (hobjects : ∀ o ∈ h'.objects, o ∈ h.objects ∨ h'.LinkedObject o)
    (hshapes : ∀ s ∈ h'.shapes, s ∈ h.shapes ∨ h'.LinkedShape s)
    (hroots : ∀ r ∈ h'.rootShapes,
      r ∈ h.rootShapes ∨ (h'.HasShape r.2 ∧ (h'.shape r.2).keys = #[]))
    : h'.Linked where
  objects := by
    intro o ho
    rcases hobjects o ho with hold | hnew
    . exact hg.linkedObject (hl.objects o hold)
    . exact hnew
  shapes := by
    intro s hs
    rcases hshapes s hs with hold | hnew
    . exact hg.linkedShape (hl.shapes s hold)
    . exact hnew
  rootShapes := by
    intro r hr
    rcases hroots r hr with hold | hnew
    . obtain ⟨hmem, hkeys⟩ := hl.rootShapes r hold
      rw [(hg.shapes _ hmem).2]
      exact ⟨(hg.shapes _ hmem).1, hkeys⟩
    . exact hnew

end Grows

theorem linked_empty (limit : Nat) : (empty limit).Linked where
  objects := by simp [empty]
  shapes := by simp [empty]
  rootShapes := by simp [empty]

theorem grows_charged (h : Heap) (bytes : Nat) : Grows h (h.charged bytes) where
  objects := Nat.le_refl _
  shapes := fun _ hid => ⟨hid, rfl⟩

theorem Linked.charged (hl : h.Linked) (bytes : Nat) : (h.charged bytes).Linked := by
  apply (grows_charged h bytes).linked hl
  . intro o ho
    exact Or.inl ho
  . intro s hs
    exact Or.inl hs
  . intro r hr
    exact Or.inl hr

section Shapes

variable (h) (family : ShapeFamily) (keys : Array String) (back : Option ShapeId)

theorem shape_addShape_old {id : ShapeId} (hid : h.HasShape id)
    : (h.addShape family keys back).shape id = h.shape id := by
  unfold HasShape at hid
  unfold shape addShape
  rw [Array.getD_eq_getD_getElem?, Array.getElem?_push, if_neg (by omega),
    ← Array.getD_eq_getD_getElem?]

theorem shape_addShape_new
    : (h.addShape family keys back).shape ⟨h.shapes.size⟩
        = ⟨h.nextStableId, family, keys, back, #[]⟩ := by
  unfold shape addShape
  rw [Array.getD_eq_getD_getElem?, Array.getElem?_push, if_pos rfl]
  rfl

theorem hasShape_addShape {id : ShapeId} (hid : h.HasShape id)
    : (h.addShape family keys back).HasShape id := by
  unfold HasShape addShape at *
  rw [Array.size_push]
  exact Nat.lt_succ_of_lt hid

theorem hasShape_addShape_new : (h.addShape family keys back).HasShape ⟨h.shapes.size⟩ := by
  unfold HasShape addShape
  rw [Array.size_push]
  exact Nat.lt_succ_self _

theorem grows_addShape : Grows h (h.addShape family keys back) where
  objects := Nat.le_refl _
  shapes := by
    intro id hid
    rw [shape_addShape_old h family keys back hid]
    exact ⟨hasShape_addShape h family keys back hid, rfl⟩

variable {h}

theorem Linked.addShape (hl : h.Linked) (hback : ∀ id ∈ back, h.HasShape id)
    : (h.addShape family keys back).Linked := by
  apply (grows_addShape h family keys back).linked hl
  . intro o ho
    exact Or.inl ho
  . intro s hs
    unfold Heap.addShape at hs
    rw [Array.mem_push] at hs
    rcases hs with hs | rfl
    . exact Or.inl hs
    . right
      refine ⟨fun id hid => hasShape_addShape h family keys back (hback id hid), ?_⟩
      intro t ht
      simp at ht
  . intro r hr
    exact Or.inl hr

end Shapes

theorem grows_addRootShape (h : Heap) (family : ShapeFamily) : Grows h (h.addRootShape family) where
  objects := Nat.le_refl _
  shapes := (grows_addShape h family #[] none).shapes

theorem Linked.addRootShape (hl : h.Linked) (family : ShapeFamily)
    : (h.addRootShape family).Linked := by
  have hl' := hl.addShape family #[] none (by simp)
  -- the entry for the family is the only difference to the heap with one more shape
  refine Grows.linked (h := h.addShape family #[] none) ?_ hl' ?_ ?_ ?_
  . exact ⟨Nat.le_refl _, fun _ hid => ⟨hid, rfl⟩⟩
  . intro o ho
    exact Or.inl ho
  . intro s hs
    exact Or.inl hs
  . intro r hr
    unfold Heap.addRootShape at hr
    rw [List.mem_append, List.mem_singleton] at hr
    rcases hr with hr | rfl
    . exact Or.inl hr
    . right
      refine ⟨hasShape_addShape_new h family #[] none, ?_⟩
      have hnew := shape_addShape_new h family #[] none
      exact congrArg Shape.keys hnew

theorem shape_modifyShape {id : ShapeId} (hid : h.HasShape id) (f : Shape → Shape)
    : (h.modifyShape id f).shape id = f (h.shape id) := by
  unfold HasShape at hid
  unfold shape modifyShape
  rw [Array.getD_eq_getD_getElem?, Array.getD_eq_getD_getElem?, Array.getElem?_modify, if_pos rfl,
    Array.getElem?_eq_getElem hid]
  rfl

theorem keys_modifyShape (h : Heap) (source : ShapeId) {f : Shape → Shape}
    (hf : ∀ s, (f s).keys = s.keys) (id : ShapeId)
    : ((h.modifyShape source f).shape id).keys = (h.shape id).keys := by
  unfold shape modifyShape
  rw [Array.getD_eq_getD_getElem?, Array.getD_eq_getD_getElem?, Array.getElem?_modify]
  split
  . cases h.shapes[id.index]? with
    | none => rfl
    | some s => exact hf s
  . rfl

theorem grows_modifyShape (h : Heap) (source : ShapeId) {f : Shape → Shape}
    (hf : ∀ s, (f s).keys = s.keys)
    : Grows h (h.modifyShape source f) where
  objects := Nat.le_refl _
  shapes := by
    intro id hid
    refine ⟨?_, keys_modifyShape h source hf id⟩
    unfold HasShape modifyShape at *
    rw [Array.size_modify]
    exact hid

theorem Linked.modifyShape (hl : h.Linked) {source : ShapeId} {f : Shape → Shape}
    (hf : ∀ s, (f s).keys = s.keys) (hsource : h.LinkedShape (f (h.shape source)))
    : (h.modifyShape source f).Linked := by
  have hg := grows_modifyShape h source hf
  apply hg.linked hl
  . intro o ho
    exact Or.inl ho
  . intro s hs
    rcases Array.eq_or_eq_of_mem_modify hs with hs | ⟨s₀, hs₀, rfl⟩
    . exact Or.inl hs
    . -- the change was linked to the old heap, whose shapes are all still there
      right
      unfold Heap.shape at hsource
      rw [Array.getD_eq_getD_getElem?, hs₀] at hsource
      exact hg.linkedShape hsource
  . intro r hr
    exact Or.inl hr

theorem shape_addTransition {source : ShapeId} (hsource : h.HasShape source) (key : String)
    : (h.addTransition source key).shape source
        =
      { h.shape source with
        transitions := (h.shape source).transitions.push (key, ⟨h.shapes.size⟩) } := by
  unfold addTransition
  rw [shape_modifyShape (hasShape_addShape h _ _ _ hsource), shape_addShape_old h _ _ _ hsource]

theorem grows_addTransition (h : Heap) (source : ShapeId) (key : String)
    : Grows h (h.addTransition source key) := by
  apply (grows_addShape h _ _ _).trans
  apply grows_modifyShape
  intro s
  rfl

theorem Linked.addTransition (hl : h.Linked) {source : ShapeId} (hsource : h.HasShape source)
    (key : String)
    : (h.addTransition source key).Linked := by
  have hl' := hl.addShape (h.shape source).family ((h.shape source).keys.push key) (some source)
    (by simpa using hsource)
  apply hl'.modifyShape
  . intro s
    rfl
  . have hlinked := hl'.shape (hasShape_addShape h _ _ _ hsource)
    refine ⟨hlinked.back, ?_⟩
    intro t ht
    rw [Array.mem_push] at ht
    rcases ht with ht | rfl
    . exact hlinked.transitions t ht
    . refine ⟨hasShape_addShape_new h _ _ _, ?_⟩
      rw [shape_addShape_new, shape_addShape_old h _ _ _ hsource]

theorem grows_addObject (h : Heap) (content : Content) (shape : ShapeId)
    : Grows h (h.addObject content shape) := by
  refine ⟨?_, fun _ hid => ⟨hid, rfl⟩⟩
  unfold addObject
  rw [Array.size_push]
  exact Nat.le_succ _

theorem Linked.addObject (hl : h.Linked) {content : Content} {shape : ShapeId}
    (hshape : h.rootShapes.lookup content.family = some shape) (hcontent : h.LinkedContent content)
    : (h.addObject content shape).Linked := by
  have hg := grows_addObject h content shape
  apply hg.linked hl
  . intro o ho
    unfold Heap.addObject at ho
    rw [Array.mem_push] at ho
    rcases ho with ho | rfl
    . exact Or.inl ho
    . right
      -- the first shape of a family has no keys, and a new object has no slots
      obtain ⟨before, after, hroots, -⟩ := List.lookup_eq_some_iff.1 hshape
      obtain ⟨hmem, hkeys⟩ := hl.rootShapes (content.family, shape) (by simp [hroots])
      apply hg.linkedObject
      refine ⟨hmem, ?_, by simp, hcontent⟩
      rw [hkeys]
      rfl
  . intro s hs
    exact Or.inl hs
  . intro r hr
    exact Or.inl hr

theorem grows_modifyObject (h : Heap) (id : ObjectId) (f : HeapObject → HeapObject)
    : Grows h (h.modifyObject id f) := by
  refine ⟨Nat.le_of_eq ?_, fun _ hid => ⟨hid, rfl⟩⟩
  unfold modifyObject
  rw [Array.size_modify]

theorem Linked.modifyObject (hl : h.Linked) {id : ObjectId} {f : HeapObject → HeapObject}
    (hf : ∀ o, h.objects[id.index]? = some o → h.LinkedObject o → h.LinkedObject (f o))
    : (h.modifyObject id f).Linked := by
  have hg := grows_modifyObject h id f
  apply hg.linked hl
  . intro o ho
    rcases Array.eq_or_eq_of_mem_modify ho with ho | ⟨o₀, ho₀, rfl⟩
    . exact Or.inl ho
    . right
      apply hg.linkedObject
      exact hf o₀ ho₀ (hl.objects o₀ (Array.mem_of_getElem? ho₀))
  . intro s hs
    exact Or.inl hs
  . intro r hr
    exact Or.inl hr

theorem Linked.putSlot (hl : h.Linked) (id : ObjectId) (slot : Nat) {value : Value}
    (hvalue : h.HasValue value)
    : (h.putSlot id slot value).Linked := by
  apply hl.modifyObject
  intro o _ ho
  refine ⟨ho.shape, ?_, ?_, ho.content⟩
  . rw [Array.size_setIfInBounds]
    exact ho.keys
  . intro v hv
    rcases Array.mem_or_eq_of_mem_setIfInBounds hv with hv | rfl
    . exact ho.slotValues v hv
    . exact hvalue

theorem Linked.addSlot (hl : h.Linked) {id : ObjectId} {t : String × ShapeId} {value : Value}
    (ht : t ∈ (h.shapeOf id).transitions) (hvalue : h.HasValue value)
    : (h.addSlot id t.2 value).Linked := by
  apply hl.modifyObject
  intro o hid ho
  have hobject : h.object id = o := by
    unfold Heap.object
    rw [Array.getD_eq_getD_getElem?, hid]
    rfl
  unfold shapeOf at ht
  rw [hobject] at ht
  -- the transition adds one key, as the object gets one slot
  obtain ⟨hmem, hkeys⟩ := (hl.shape ho.shape).transitions t ht
  refine ⟨hmem, ?_, ?_, ho.content⟩
  . rw [hkeys, Array.size_push, Array.size_push, ho.keys]
  . intro v hv
    rw [Array.mem_push] at hv
    rcases hv with hv | rfl
    . exact ho.slotValues v hv
    . exact hvalue

theorem Linked.modifyContent (hl : h.Linked) (id : ObjectId) {f : Content → Content}
    (hf : ∀ c, h.LinkedContent c → h.LinkedContent (f c))
    : (h.modifyContent id f).Linked := by
  apply hl.modifyObject
  intro o _ ho
  exact ⟨ho.shape, ho.keys, ho.slotValues, hf o.content ho.content⟩

theorem mem_putElement {elements : Array Value} {index : Nat} {value v : Value}
    (hv : v ∈ putElement elements index value)
    : v ∈ elements ∨ v = value ∨ v = .undefined := by
  unfold putElement at hv
  split at hv
  . rcases Array.mem_or_eq_of_mem_setIfInBounds hv with hv | hv
    . exact Or.inl hv
    . exact Or.inr (Or.inl hv)
  . rw [Array.mem_push, Array.mem_append, Array.mem_replicate] at hv
    rcases hv with (hv | ⟨-, hv⟩) | hv
    . exact Or.inl hv
    . exact Or.inr (Or.inr hv)
    . exact Or.inr (Or.inl hv)

theorem Linked.putArrayElement (hl : h.Linked) (id : ObjectId) (index : Nat) {value : Value}
    (hvalue : h.HasValue value)
    : (h.putArrayElement id index value).Linked := by
  apply hl.modifyContent
  intro c hc
  cases c with
  | array elements =>
    refine ⟨?_, hc.scope⟩
    intro v hv
    rcases mem_putElement (Array.mem_def.2 hv) with hv | rfl | rfl
    . exact hc.values v (Array.mem_def.1 hv)
    . exact hvalue
    . exact hasValue_of_object?_eq_none rfl
  | _ => exact hc

theorem LinkedContent.mapBindings {parent : Option ObjectId} {bindings : Array Binding}
    (hc : h.LinkedContent (.scope parent bindings)) {f : Array Binding → Array Binding} {b : Binding}
    (hf : ∀ b' ∈ f bindings, b' ∈ bindings ∨ b' = b) (hvalue : h.HasValue b.value)
    : h.LinkedContent (.scope parent (f bindings)) where
  values := by
    intro v hv
    obtain ⟨b', hb', rfl⟩ := List.mem_map.1 hv
    rcases hf b' (Array.mem_def.2 hb') with hb' | rfl
    . exact hc.values _ (List.mem_map_of_mem (Array.mem_def.1 hb'))
    . exact hvalue
  scope := hc.scope

theorem Linked.putBinding (hl : h.Linked) (id : ObjectId) (i : Nat) {b : Binding}
    (hvalue : h.HasValue b.value)
    : (h.putBinding id i b).Linked := by
  apply hl.modifyContent
  intro c hc
  cases c with
  | scope parent bindings =>
    apply hc.mapBindings _ hvalue
    intro b' hb'
    exact Array.mem_or_eq_of_mem_setIfInBounds hb'
  | _ => exact hc

theorem Linked.addBinding (hl : h.Linked) (id : ObjectId) {b : Binding} (hvalue : h.HasValue b.value)
    : (h.addBinding id b).Linked := by
  apply hl.modifyContent
  intro c hc
  cases c with
  | scope parent bindings =>
    apply hc.mapBindings _ hvalue
    intro b' hb'
    exact Array.mem_push.1 hb'
  | _ => exact hc

end Heap
end ScriptHost
