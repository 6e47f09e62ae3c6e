import ScriptHost.Proofs.Heap.Run

/-!
This module contains the keys of objects. An object keeps those that it has, and a key that is set is one
of them from then on, unless there is no memory for it.
-/

namespace ScriptHost.Heap

variable {h h' : Heap} {id : ObjectId} {key : String} {value : Value}

theorem hasProperty_iff_mem_keys : h.hasProperty id key = true ↔ key ∈ h.keys id := by
  unfold hasProperty keys Shape.slot?
  simp [Array.mem_iff_getElem]

theorem property?_eq_none (hproperty : h.hasProperty id key = false) : h.property? id key = none := by
  have hslot : (h.shapeOf id).slot? key = none := by simpa [hasProperty] using hproperty
  change ((h.shapeOf id).slot? key).bind _ = none
  rw [hslot]
  rfl

theorem keys_eq_of_grows (hg : Grows h h') (hshape : h.HasShape (h.object id).shape)
    (hobject : (h'.object id).shape = (h.object id).shape)
    : h'.keys id = h.keys id := by
  unfold keys shapeOf
  rw [hobject]
  exact (hg.shapes _ hshape).2

theorem object_addObject (hid : h.Has id) (content : Content) (shape : ShapeId)
    : (h.addObject content shape).object id = h.object id := by
  unfold Has at hid
  unfold object addObject
  rw [Array.getD_eq_getD_getElem?, Array.getElem?_push, if_neg (by omega),
    ← Array.getD_eq_getD_getElem?]

theorem object_modifyObject (hid : h.Has id) (id' : ObjectId) (f : HeapObject → HeapObject)
    : (h.modifyObject id' f).object id = if id' = id then f (h.object id) else h.object id := by
  unfold Has at hid
  unfold object modifyObject
  rw [Array.getD_eq_getD_getElem?, Array.getD_eq_getD_getElem?, Array.getElem?_modify,
    Array.getElem?_eq_getElem hid]
  by_cases heq : id' = id
  . rw [if_pos (by rw [heq]), if_pos heq]
    rfl
  . have hindex : id'.index ≠ id.index := by
      intro hindex
      apply heq
      cases id'
      cases id
      exact congrArg ObjectId.mk hindex
    rw [if_neg hindex, if_neg heq]

theorem shape_modifyObject_object (hid : h.Has id) (id' : ObjectId) {f : HeapObject → HeapObject}
    (hf : ∀ o, (f o).shape = o.shape)
    : ((h.modifyObject id' f).object id).shape = (h.object id).shape := by
  rw [object_modifyObject hid]
  split
  . exact hf _
  . rfl

/-- The keys after a transition are those before it and the one that it adds. -/
theorem Linked.keys_addSlot (hl : h.Linked) {id : ObjectId} (hid : h.Has id) {t : String × ShapeId}
    (ht : t ∈ (h.shapeOf id).transitions) (value : Value)
    : (h.addSlot id t.2 value).keys id = (h.keys id).push t.1 := by
  obtain ⟨hmem, hkeys⟩ := (hl.shape (hl.object hid).shape).transitions t ht
  unfold keys shapeOf
  unfold Heap.addSlot
  rw [object_modifyObject hid, if_pos rfl]
  exact hkeys

theorem Linked.keys_step (hl : h.Linked) (hs : Step h h') (hid : h.Has id)
    : (h.keys id).toList <+: (h'.keys id).toList := by
  have hsame : (h'.object id).shape = (h.object id).shape →
      (h.keys id).toList <+: (h'.keys id).toList := by
    intro hobject
    have hkeys := keys_eq_of_grows hs.grows (hl.object hid).shape hobject
    exact ⟨[], by rw [hkeys, List.append_nil]⟩
  cases hs with
  | charge | rootShape | transition => exact hsame rfl
  | object => exact hsame (congrArg HeapObject.shape (object_addObject hid _ _))
  | putSlot | putElement | putBinding | addBinding =>
    exact hsame (shape_modifyObject_object hid _ fun _ => rfl)
  | @addSlot id' t value ht _ =>
    by_cases heq : id' = id
    . subst heq
      rw [hl.keys_addSlot hid ht, Array.toList_push]
      exact List.prefix_append _ _
    . apply hsame
      unfold Heap.addSlot
      rw [object_modifyObject hid, if_neg heq]

theorem Linked.keys_steps (hl : h.Linked) (hs : Steps h h') (hid : h.Has id)
    : (h.keys id).toList <+: (h'.keys id).toList := by
  induction hs with
  | refl => exact List.prefix_rfl
  | tail hs hstep ih => exact ih.trans ((hl.steps hs).keys_step hstep ((Steps.grows hs).has hid))

theorem Linked.hasProperty_steps (hl : h.Linked) (hs : Steps h h') (hid : h.Has id)
    (hkey : h.hasProperty id key = true)
    : h'.hasProperty id key = true := by
  rw [hasProperty_iff_mem_keys, Array.mem_def] at *
  exact (hl.keys_steps hs hid).subset hkey

theorem Linked.keys_transition (hl : h.Linked) {source shape : ShapeId} (hsource : h.HasShape source)
    (htransition : exec (transition source key) h = (.ok shape, h'))
    : (h'.shape shape).keys = (h.shape source).keys.push key := by
  rcases transition_cases source key h with ⟨t, hfind, hexec⟩ | ⟨-, -, hexec⟩ | ⟨-, -, hexec⟩
  . rw [htransition] at hexec
    cases hexec
    have hkey : t.1 = key := by simpa using Array.find?_some hfind
    rw [← hkey]
    exact ((hl.shape hsource).transitions t (Array.mem_of_find?_eq_some hfind)).2
  . rw [htransition] at hexec
    cases hexec
  . rw [htransition] at hexec
    cases hexec
    have hsource' : (h.charged shapeSize).HasShape source := hsource
    have hl' := (hl.charged shapeSize).addTransition hsource' key
    have hgrows := grows_addTransition (h.charged shapeSize) source key
    have hshape := hl'.shape (hgrows.shapes source hsource').1
    rw [shape_addTransition hsource'] at hshape
    exact (hshape.transitions _ Array.mem_push_self).2

/-- A property that has been set is there. -/
theorem Linked.hasProperty_setProperty (hl : h.Linked) (hid : h.Has id)
    (hset : exec (setProperty id key value) h = (.ok (), h'))
    : h'.hasProperty id key = true := by
  rcases setProperty_cases id key value h with ⟨slot, hslot, hexec⟩ | ⟨-, -, hexec⟩ |
    ⟨e, -, -, -, hexec⟩ | ⟨shape, h₁, -, hlimit, htransition, hexec⟩
  . rw [hset] at hexec
    cases hexec
    have hkeys : (h.putSlot id slot value).keys id = h.keys id :=
      keys_eq_of_grows (grows_modifyObject h id _) (hl.object hid).shape
        (shape_modifyObject_object hid id fun _ => rfl)
    rw [hasProperty_iff_mem_keys, hkeys, ← hasProperty_iff_mem_keys]
    unfold hasProperty
    rw [hslot]
    rfl
  . rw [hset] at hexec
    cases hexec
  . rw [hset] at hexec
    cases hexec
  . rw [hset] at hexec
    cases hexec
    have hsource : (h.charged pointerSize).HasShape (h.object id).shape := (hl.object hid).shape
    have hkeys := (hl.charged pointerSize).keys_transition hsource htransition
    obtain ⟨-, -, hobjects⟩ := transition_steps hsource htransition
    have hid₁ : h₁.Has id := by
      unfold Has
      rw [hobjects]
      exact hid
    rw [hasProperty_iff_mem_keys]
    unfold keys shapeOf Heap.addSlot
    rw [object_modifyObject hid₁, if_pos rfl]
    change key ∈ (h₁.shape shape).keys
    rw [hkeys]
    exact Array.mem_push_self

/-- A property that cannot be set is not there, and there is no memory for a shape. -/
theorem hasProperty_setProperty_error {e : OutOfMemory}
    (hset : exec (setProperty id key value) h = (.error e, h'))
    : h'.hasProperty id key = false ∧ h'.limit < h'.used + shapeSize := by
  rcases setProperty_cases id key value h with ⟨slot, -, hexec⟩ | ⟨hslot, hlimit, hexec⟩ |
    ⟨e', hslot, -, htransition, hexec⟩ | ⟨shape, h₁, -, -, -, hexec⟩
  . rw [hset] at hexec
    cases hexec
  . rw [hset] at hexec
    cases hexec
    have hsize : h.used + pointerSize < h.used + shapeSize := Nat.add_lt_add_left (by decide) _
    exact ⟨by rw [hasProperty, hslot]; rfl, Nat.lt_trans hlimit hsize⟩
  . rw [hset] at hexec
    cases hexec
    have hproperty : h.hasProperty id key = false := by
      rw [hasProperty, hslot]
      rfl
    refine ⟨hproperty, ?_⟩
    rcases transition_cases (h.object id).shape key (h.charged pointerSize) with
      ⟨t, -, hexec'⟩ | ⟨-, hlimit, -⟩ | ⟨-, -, hexec'⟩
    . rw [htransition] at hexec'
      cases hexec'
    . exact hlimit
    . rw [htransition] at hexec'
      cases hexec'
  . rw [hset] at hexec
    cases hexec

end ScriptHost.Heap
