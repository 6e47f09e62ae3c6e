import Mathlib
import ScriptHost.Proofs.Heap.Run

/-!
This module contains the budget of a heap: what its objects and shapes take has been charged, and no more
than the limit has been charged.
-/

namespace ScriptHost.Heap

variable {h h' h'' : Heap} {m n : Nat}

def size (h : Heap) : Nat :=
  (h.objects.toList.map HeapObject.size).sum + h.shapes.size * shapeSize

theorem List.sum_map_modify_le {α : Type} {xs : List α} {i : Nat} {f : α → α} {g : α → Nat}
    (hf : ∀ x, xs[i]? = some x → g (f x) ≤ g x + n)
    : ((xs.modify i f).map g).sum ≤ (xs.map g).sum + n := by
  induction xs generalizing i with
  | nil => simp
  | cons x xs ih =>
    cases i with
    | zero =>
      have hx := hf x rfl
      simp only [List.modify_zero_cons, List.map_cons, List.sum_cons]
      omega
    | succ i =>
      have hxs := ih (i := i) hf
      simp only [List.modify_succ_cons, List.map_cons, List.sum_cons]
      omega

theorem size_addShape (h : Heap) (family : ShapeFamily) (keys : Array String) (back : Option ShapeId)
    : (h.addShape family keys back).size = h.size + shapeSize := by
  unfold size addShape
  rw [Array.size_push, Nat.succ_mul, Nat.add_assoc]

theorem size_addRootShape (h : Heap) (family : ShapeFamily)
    : (h.addRootShape family).size = h.size + shapeSize :=
  size_addShape h family #[] none

theorem size_modifyShape (h : Heap) (id : ShapeId) (f : Shape → Shape)
    : (h.modifyShape id f).size = h.size := by
  unfold size modifyShape
  rw [Array.size_modify]

theorem size_addTransition (h : Heap) (source : ShapeId) (key : String)
    : (h.addTransition source key).size = h.size + shapeSize := by
  unfold addTransition
  rw [size_modifyShape, size_addShape]

theorem size_addObject (h : Heap) (content : Content) (shape : ShapeId)
    : (h.addObject content shape).size = h.size + content.size := by
  unfold size addObject
  simp only [Array.toList_push, List.map_append, List.map_cons, List.map_nil, List.sum_append_nat,
    List.sum_cons, List.sum_nil, HeapObject.size, Array.size_empty]
  omega

theorem size_modifyObject_le {id : ObjectId} {f : HeapObject → HeapObject}
    (hf : ∀ o, h.objects[id.index]? = some o → (f o).size ≤ o.size + n)
    : (h.modifyObject id f).size ≤ h.size + n := by
  have hsum : ((h.objects.toList.modify id.index f).map HeapObject.size).sum
      ≤ (h.objects.toList.map HeapObject.size).sum + n := by
    apply List.sum_map_modify_le
    intro o ho
    rw [Array.getElem?_toList] at ho
    exact hf o ho
  unfold size modifyObject
  simp only [Array.toList_modify]
  omega

theorem size_putSlot_le (h : Heap) (id : ObjectId) (slot : Nat) (value : Value)
    : (h.putSlot id slot value).size ≤ h.size := by
  apply size_modifyObject_le (n := 0)
  intro o _
  simp [HeapObject.size]

theorem size_addSlot_le (h : Heap) (id : ObjectId) (shape : ShapeId) (value : Value)
    : (h.addSlot id shape value).size ≤ h.size + pointerSize := by
  apply size_modifyObject_le
  intro o _
  simp only [HeapObject.size, Array.size_push, Nat.succ_mul]
  omega

theorem size_modifyContent_le {id : ObjectId} {f : Content → Content}
    (hf : (f (h.content id)).size ≤ (h.content id).size + n)
    : (h.modifyContent id f).size ≤ h.size + n := by
  apply size_modifyObject_le
  intro o ho
  have hcontent : h.content id = o.content := by
    unfold content object
    rw [Array.getD_eq_getD_getElem?, ho]
    rfl
  rw [hcontent] at hf
  simp only [HeapObject.size]
  omega

theorem size_putElement (elements : Array Value) (index : Nat) (value : Value)
    : (putElement elements index value).size
        =
      if index < elements.size then elements.size else index + 1 := by
  unfold putElement
  split
  . rw [Array.size_setIfInBounds]
  . rw [Array.size_push, Array.size_append, Array.size_replicate]
    omega

theorem arraySize?_eq_some {id : ObjectId} {size : Nat} (hsize : h.arraySize? id = some size)
    : ∃ elements, h.content id = .array elements ∧ elements.size = size := by
  unfold arraySize? at hsize
  split at hsize
  . next elements hcontent =>
    injection hsize with hsize
    exact ⟨elements, hcontent, hsize⟩
  . cases hsize

theorem size_putArrayElement_le {id : ObjectId} {size : Nat} (hsize : h.arraySize? id = some size)
    (index : Nat) (value : Value)
    : (h.putArrayElement id index value).size
        ≤ h.size + if index < size then 0 else growth size index := by
  obtain ⟨elements, hcontent, rfl⟩ := arraySize?_eq_some hsize
  apply size_modifyContent_le
  rw [hcontent]
  simp only [Content.mapElements, Content.size, size_putElement, growth]
  split
  . omega
  . rw [Nat.add_assoc, ← Nat.add_mul]
    apply Nat.add_le_add_left
    apply Nat.mul_le_mul_right
    omega

theorem size_putBinding_le (h : Heap) (id : ObjectId) (i : Nat) (b : Binding)
    : (h.putBinding id i b).size ≤ h.size := by
  apply size_modifyContent_le (n := 0)
  cases h.content id <;> simp [Content.mapBindings, Content.size]

theorem size_addBinding_le (h : Heap) (id : ObjectId) (b : Binding)
    : (h.addBinding id b).size ≤ h.size + pointerSize := by
  apply size_modifyContent_le
  cases h.content id <;> simp [Content.mapBindings, Content.size, Nat.succ_mul, Nat.add_assoc]

/-- What `h'` has more than `h` has been charged, and `unspent` bytes on top of that. -/
structure Paid (unspent : Nat) (h h' : Heap) : Prop where
  spent : h'.size + unspent + h.used ≤ h.size + h'.used
  grows : h.used ≤ h'.used
  limit : h'.limit = h.limit
  used_le : h.used ≤ h.limit → h'.used ≤ h.limit

theorem Paid.refl (h : Heap) : Paid 0 h h := ⟨by omega, Nat.le_refl _, rfl, id⟩

theorem paid_charged (hlimit : h.used + n ≤ h.limit) : Paid n h (h.charged n) where
  spent := by
    have hsize : (h.charged n).size = h.size := rfl
    have hused : (h.charged n).used = h.used + n := rfl
    omega
  grows := Nat.le_add_right _ _
  limit := rfl
  used_le := fun _ => hlimit

theorem Paid.trans (hp : Paid m h h') (hp' : Paid n h' h'') : Paid (m + n) h h'' where
  spent := by
    have := hp.spent
    have := hp'.spent
    omega
  grows := hp.grows.trans hp'.grows
  limit := hp'.limit.trans hp.limit
  used_le := by
    intro hused
    have := hp'.used_le (by rw [hp.limit]; exact hp.used_le hused)
    rwa [hp.limit] at this

theorem Paid.spend (hp : Paid n h h') (hused : h''.used = h'.used) (hlimit : h''.limit = h'.limit)
    (hsize : h''.size ≤ h'.size + n)
    : Paid 0 h h'' where
  spent := by
    have := hp.spent
    omega
  grows := hused ▸ hp.grows
  limit := hlimit.trans hp.limit
  used_le := by
    intro h
    rw [hused]
    exact hp.used_le h

theorem Paid.waste (hp : Paid n h h') : Paid 0 h h' :=
  hp.spend rfl rfl (Nat.le_add_right _ _)

theorem paid_rootShape {family : ShapeFamily} {shape : ShapeId}
    (hroot : exec (rootShape family) h = (.ok shape, h'))
    : Paid 0 h h' := by
  rcases rootShape_cases family h with ⟨shape', -, hexec⟩ | ⟨-, -, hexec⟩ | ⟨-, hlimit, hexec⟩
  . rw [hroot] at hexec
    cases hexec
    exact .refl h
  . rw [hroot] at hexec
    cases hexec
  . rw [hroot] at hexec
    cases hexec
    exact (paid_charged hlimit).spend rfl rfl (Nat.le_of_eq (size_addRootShape _ family))

theorem paid_transition {source : ShapeId} {key : String} {shape : ShapeId}
    (htransition : exec (transition source key) h = (.ok shape, h'))
    : Paid 0 h h' := by
  rcases transition_cases source key h with ⟨t, -, hexec⟩ | ⟨-, -, hexec⟩ | ⟨-, hlimit, hexec⟩
  . rw [htransition] at hexec
    cases hexec
    exact .refl h
  . rw [htransition] at hexec
    cases hexec
  . rw [htransition] at hexec
    cases hexec
    exact (paid_charged hlimit).spend rfl rfl (Nat.le_of_eq (size_addTransition _ source key))

theorem paid_allocate (content : Content) (h : Heap) : Paid 0 h (exec (allocate content) h).2 := by
  rcases allocate_cases content h with ⟨-, hexec⟩ | ⟨e, hlimit, -, hexec⟩ |
    ⟨shape, h₁, hlimit, hroot, hexec⟩
  . rw [hexec]
    exact .refl h
  . rw [hexec]
    exact (paid_charged hlimit).waste
  . rw [hexec]
    have hp := (paid_charged hlimit).trans (paid_rootShape hroot)
    exact hp.spend rfl rfl (Nat.le_of_eq (size_addObject _ content shape))

theorem paid_setProperty (id : ObjectId) (key : String) (value : Value) (h : Heap)
    : Paid 0 h (exec (setProperty id key value) h).2 := by
  rcases setProperty_cases id key value h with ⟨slot, -, hexec⟩ | ⟨-, -, hexec⟩ |
    ⟨e, -, hlimit, -, hexec⟩ | ⟨shape, h₁, -, hlimit, htransition, hexec⟩
  . rw [hexec]
    exact (Paid.refl h).spend rfl rfl (size_putSlot_le h id slot value)
  . rw [hexec]
    exact .refl h
  . rw [hexec]
    exact (paid_charged hlimit).waste
  . rw [hexec]
    have hp := (paid_charged hlimit).trans (paid_transition htransition)
    exact hp.spend rfl rfl (size_addSlot_le _ id shape value)

theorem paid_setElement (id : ObjectId) (index : Nat) (value : Value) (h : Heap)
    : Paid 0 h (exec (setElement id index value) h).2 := by
  rcases setElement_cases id index value h with ⟨-, hexec⟩ | ⟨size, hsize, hindex, hexec⟩ |
    ⟨size, e, -, -, hexec⟩ | ⟨size, hsize, hindex, hlimit, hexec⟩
  . rw [hexec]
    exact .refl h
  . rw [hexec]
    have hle := size_putArrayElement_le hsize index value
    rw [if_pos hindex] at hle
    exact (Paid.refl h).spend rfl rfl hle
  . rw [hexec]
    exact .refl h
  . rw [hexec]
    have hsize' : (h.charged (growth size index)).arraySize? id = some size := hsize
    have hle := size_putArrayElement_le hsize' index value
    rw [if_neg (Nat.not_lt.2 hindex)] at hle
    exact (paid_charged hlimit).spend rfl rfl hle

theorem paid_declare (id : ObjectId) (name : String) (value : Value) (mutable : Bool) (h : Heap)
    : Paid 0 h (exec (declare id name value mutable) h).2 := by
  rcases declare_cases id name value mutable h with ⟨i, -, hexec⟩ | ⟨-, -, hexec⟩ |
    ⟨-, hlimit, hexec⟩
  . rw [hexec]
    exact (Paid.refl h).spend rfl rfl (size_putBinding_le h id i _)
  . rw [hexec]
    exact .refl h
  . rw [hexec]
    exact (paid_charged hlimit).spend rfl rfl (size_addBinding_le _ id _)

theorem paid_apply (op : Op) (h : Heap) : Paid 0 h (op.apply h) := by
  cases op with
  | allocate content => exact paid_allocate content h
  | setProperty id key value => exact paid_setProperty id key value h
  | setElement id index value => exact paid_setElement id index value h
  | declare id name value mutable => exact paid_declare id name value mutable h

theorem Reaches.paid (hr : Reaches h h') : Paid 0 h h' := by
  induction hr with
  | refl => exact .refl h
  | tail _ hop ih =>
    obtain ⟨op, -, rfl⟩ := hop
    exact ih.trans (paid_apply op _)

/-- There is nothing in the empty heap, so that all there is has been charged. -/
theorem Paid.size_le_limit {limit : Nat} (hp : Paid 0 (empty limit) h) : h.size ≤ limit := by
  have hspent := hp.spent
  have hused := hp.used_le (Nat.zero_le limit)
  have hsize : (empty limit).size = 0 := rfl
  change h.size + 0 + 0 ≤ 0 + h.used at hspent
  change h.used ≤ limit at hused
  omega

theorem Built.size_le_limit {limit : Nat} (hb : Built limit h) : h.size ≤ limit :=
  (Reaches.paid hb).size_le_limit

theorem size_object_le {id : ObjectId} (hid : h.Has id) : (h.object id).size ≤ h.size := by
  unfold size
  apply Nat.le_add_right_of_le
  apply List.le_sum_of_mem
  exact List.mem_map_of_mem (Array.mem_def.1 (object_mem hid))

end ScriptHost.Heap
