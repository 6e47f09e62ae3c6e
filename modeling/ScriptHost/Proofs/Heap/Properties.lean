import ScriptHost.Proofs.Heap.Closures
import ScriptHost.Proofs.Heap.Keys

/-!
This module contains the values of properties. An operation that sets a property gives it its value, and
all other properties stay exactly as they are in it.
-/

namespace ScriptHost.Heap

variable {h h' h₁ : Heap} {id id' : ObjectId} {key key' : String} {v : Value}

theorem property?_eq (h : Heap) (id : ObjectId) (key : String)
    : h.property? id key
        =
      ((h.keys id).findIdx? (· == key)).bind fun slot => (h.object id).slots[slot]? :=
  rfl

theorem hasProperty_of_property? (hread : h.property? id key = some v)
    : h.hasProperty id key = true := by
  obtain ⟨slot, hslot, -⟩ := Option.bind_eq_some_iff.1 hread
  unfold hasProperty shapeOf
  rw [hslot]
  rfl

theorem property?_congr (hkeys : h'.keys id = h.keys id)
    (hslots : (h'.object id).slots = (h.object id).slots) (key : String)
    : h'.property? id key = h.property? id key := by
  rw [property?_eq, property?_eq, hkeys, hslots]

theorem object_of_objects_eq (hobjects : h'.objects = h.objects) (id : ObjectId)
    : h'.object id = h.object id := by
  unfold object
  rw [hobjects]

theorem has_of_objects_eq (hobjects : h'.objects = h.objects) (hid : h.Has id) : h'.Has id := by
  unfold Has
  rw [hobjects]
  exact hid

/-! The single changes of objects. -/

theorem Linked.property?_of_objects_eq (hl : h.Linked) (hid : h.Has id) (hg : Grows h h')
    (hobjects : h'.objects = h.objects) (key : String)
    : h'.property? id key = h.property? id key := by
  have hobject := object_of_objects_eq hobjects id
  exact property?_congr (keys_eq_of_grows hg (hl.object hid).shape (by rw [hobject])) (by rw [hobject]) key

theorem property?_addObject (hid : h.Has id) (content : Content) (shape : ShapeId) (key : String)
    : (h.addObject content shape).property? id key = h.property? id key := by
  have hobject := object_addObject hid content shape
  apply property?_congr
  . unfold keys shapeOf
    rw [hobject]
    rfl
  . rw [hobject]

theorem property?_modifyObject (hid : h.Has id) (id' : ObjectId) {f : HeapObject → HeapObject}
    (hf : id' = id → (f (h.object id)).shape = (h.object id).shape ∧
      (f (h.object id)).slots = (h.object id).slots) (key : String)
    : (h.modifyObject id' f).property? id key = h.property? id key := by
  have hobject := object_modifyObject hid id' f
  apply property?_congr
  . unfold keys shapeOf
    rw [hobject]
    split
    . next heq =>
      rw [(hf heq).1]
      rfl
    . rfl
  . rw [hobject]
    split
    . next heq => exact (hf heq).2
    . rfl

theorem property?_modifyContent (hid : h.Has id) (id' : ObjectId) (f : Content → Content) (key : String)
    : (h.modifyContent id' f).property? id key = h.property? id key :=
  property?_modifyObject hid id' (fun _ => ⟨rfl, rfl⟩) key

/-- Another key has another slot. -/
theorem Linked.property?_putSlot (hl : h.Linked) (hid : h.Has id) {slot : Nat}
    (hslot : (h.shapeOf id).slot? key = some slot) (v : Value) (key' : String)
    : (h.putSlot id slot v).property? id key' = if key' = key then some v else h.property? id key' := by
  have hobject := object_modifyObject hid id fun o => { o with slots := o.slots.setIfInBounds slot v }
  rw [if_pos rfl] at hobject
  have hkeys : (h.putSlot id slot v).keys id = h.keys id := by
    unfold keys shapeOf Heap.putSlot
    rw [hobject]
    rfl
  have hfind : (h.keys id).findIdx? (· == key) = some slot := hslot
  rw [property?_eq, property?_eq, hkeys]
  unfold Heap.putSlot
  rw [hobject]
  obtain ⟨hlt, hkey, -⟩ := Array.findIdx?_eq_some_iff_getElem.1 hfind
  have hsize : slot < (h.object id).slots.size := by
    rw [← (hl.object hid).keys]
    exact hlt
  rw [beq_iff_eq] at hkey
  split
  . next heq =>
    rw [heq, hfind]
    exact Array.getElem?_setIfInBounds_self_of_lt hsize
  . next hne =>
    cases hfind' : (h.keys id).findIdx? (· == key') with
    | none => rfl
    | some slot' =>
      obtain ⟨hlt', hkey', -⟩ := Array.findIdx?_eq_some_iff_getElem.1 hfind'
      rw [beq_iff_eq] at hkey'
      have hslots : slot ≠ slot' := by
        rintro rfl
        exact hne (hkey'.symm.trans hkey)
      exact Array.getElem?_setIfInBounds_ne hslots

/-- A new key gets the slot behind all others. -/
theorem property?_addSlot (hid : h.Has id) {shape : ShapeId} {keys : Array String}
    (hkeys : (h.shape shape).keys = keys.push key) (hnew : keys.findIdx? (· == key) = none)
    (hsize : keys.size = (h.object id).slots.size) (v : Value) (key' : String)
    : (h.addSlot id shape v).property? id key'
        =
      if key' = key then some v
      else (keys.findIdx? (· == key')).bind fun slot => (h.object id).slots[slot]? := by
  have hobject := object_modifyObject hid id fun o => { o with shape := shape, slots := o.slots.push v }
  rw [if_pos rfl] at hobject
  have hkeys' : (h.addSlot id shape v).keys id = keys.push key := by
    unfold Heap.keys shapeOf addSlot
    rw [hobject]
    exact hkeys
  rw [property?_eq, hkeys', Array.findIdx?_push]
  unfold addSlot
  rw [hobject]
  by_cases heq : key' = key
  . rw [if_pos heq, heq, hnew, Option.none_or, if_pos (beq_self_eq_true key), Option.bind_some, hsize]
    exact Array.getElem?_push_size
  . have hother : ¬ (key == key') = true := by
      rw [beq_iff_eq]
      exact fun h => heq h.symm
    rw [if_neg heq, if_neg hother, Option.or_none]
    cases hfind : keys.findIdx? (· == key') with
    | none => rfl
    | some slot =>
      obtain ⟨hlt, -⟩ := Array.findIdx?_eq_some_iff_getElem.1 hfind
      rw [hsize] at hlt
      exact Array.getElem?_push_lt hlt |>.trans (Array.getElem?_eq_getElem hlt).symm

/-! The operations. -/

/-- Setting a property changes that property of that object, and no other one of any object. -/
theorem Linked.property?_setProperty (hl : h.Linked) (hid : h.Has id) (hid' : h.Has id')
    (hset : exec (setProperty id key v) h = (.ok (), h')) (key' : String)
    : h'.property? id' key' = if id' = id ∧ key' = key then some v else h.property? id' key' := by
  rcases setProperty_cases id key v h with ⟨slot, hslot, hexec⟩ | ⟨-, -, hexec⟩ |
    ⟨e, -, -, -, hexec⟩ | ⟨shape, h₁, hslot, -, htransition, hexec⟩
  . rw [hset] at hexec
    cases hexec
    by_cases heq : id' = id
    . rw [heq, hl.property?_putSlot hid hslot]
      simp
    . rw [if_neg fun h => heq h.1]
      exact property?_modifyObject hid' id (fun h => absurd h.symm heq) key'
  . rw [hset] at hexec
    cases hexec
  . rw [hset] at hexec
    cases hexec
  . rw [hset] at hexec
    cases hexec
    have hsource : (h.charged pointerSize).HasShape (h.object id).shape := (hl.object hid).shape
    obtain ⟨hsteps, -, hobjects⟩ := transition_steps hsource htransition
    have hobjects' : h₁.objects = h.objects := hobjects
    have hgrows : Grows h h₁ := (grows_charged h _).trans (Steps.grows hsteps)
    by_cases heq : id' = id
    . have hkeys : (h₁.shape shape).keys = (h.keys id).push key :=
        (hl.charged pointerSize).keys_transition hsource htransition
      have hobject := object_of_objects_eq hobjects' id
      have hsize : (h.keys id).size = (h₁.object id).slots.size := by
        rw [hobject]
        exact (hl.object hid).keys
      rw [heq, property?_addSlot (has_of_objects_eq hobjects' hid) hkeys hslot hsize, hobject]
      simp only [true_and]
      rfl
    . rw [if_neg fun h => heq h.1, ← hl.property?_of_objects_eq hid' hgrows hobjects' key']
      exact property?_modifyObject (has_of_objects_eq hobjects' hid') id (fun h => absurd h.symm heq) key'

theorem property?_setProperty_failed {e : OutOfMemory} (hset : exec (setProperty id key v) h = (.error e, h'))
    (id' : ObjectId) (key' : String)
    : h'.property? id' key' = h.property? id' key' := by
  rcases setProperty_cases id key v h with ⟨slot, -, hexec⟩ | ⟨-, -, hexec⟩ |
    ⟨e, -, -, -, hexec⟩ | ⟨shape, h₁, -, -, -, hexec⟩ <;>
  . rw [hset] at hexec
    cases hexec
    try rfl

/-- A property stays exactly as it is in an operation that does not set it. -/
theorem Linked.property?_apply (hl : h.Linked) {op : Op} (hop : op.Names h) (hid : h.Has id)
    (hset : ∀ v, op ≠ .setProperty id key v)
    : (op.apply h).property? id key = h.property? id key := by
  cases op with
  | allocate content =>
    change (exec (Heap.allocate content) h).2.property? id key = _
    rcases allocate_cases content h with ⟨-, hexec⟩ | ⟨e, -, -, hexec⟩ | ⟨shape, h₁, -, hroot, hexec⟩
    . rw [hexec]
    . rw [hexec]
      rfl
    . have hobjects : h₁.objects = (h.charged content.size).objects := objects_rootShape hroot
      have hgrows : Grows h h₁ := (grows_charged h _).trans (Steps.grows (rootShape_steps hroot).1)
      rw [hexec]
      dsimp only
      rw [property?_addObject (has_of_objects_eq hobjects hid), hl.property?_of_objects_eq hid hgrows hobjects]
  | setProperty id' key' v' =>
    have hne : ¬ (id = id' ∧ key = key') := by
      rintro ⟨rfl, rfl⟩
      exact hset v' rfl
    change (exec (Heap.setProperty id' key' v') h).2.property? id key = _
    rcases hexec : exec (Heap.setProperty id' key' v') h with ⟨_ | _, h'⟩
    . exact property?_setProperty_failed hexec id key
    . rw [hl.property?_setProperty hop.1 hid hexec, if_neg hne]
  | setElement id' index v' =>
    change (exec (Heap.setElement id' index v') h).2.property? id key = _
    rcases setElement_cases id' index v' h with ⟨-, hexec⟩ | ⟨size, -, -, hexec⟩ |
      ⟨size, e, -, -, hexec⟩ | ⟨size, -, -, -, hexec⟩
    . rw [hexec]
    . rw [hexec]
      exact property?_modifyContent hid id' _ key
    . rw [hexec]
    . rw [hexec]
      exact property?_modifyContent (h := h.charged (growth size index)) hid id' _ key
  | declare id' name v' mutable =>
    change (exec (Heap.declare id' name v' mutable) h).2.property? id key = _
    rcases declare_cases id' name v' mutable h with ⟨i, -, hexec⟩ | ⟨-, -, hexec⟩ | ⟨-, -, hexec⟩
    . rw [hexec]
      exact property?_modifyContent hid id' _ key
    . rw [hexec]
    . rw [hexec]
      exact property?_modifyContent (h := h.charged pointerSize) hid id' _ key

end ScriptHost.Heap
