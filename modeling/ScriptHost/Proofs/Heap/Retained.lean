import ScriptHost.Proofs.Heap.Closures
import ScriptHost.Proofs.Heap.Keys

/-!
This module contains what an object keeps through all operations on its heap: its stable id and its
content, but for the elements of an array and the bindings of a scope. An operation brings no values into
the heap but its own.
-/

namespace ScriptHost

namespace Content

/-- The content without the elements of an array and the bindings of a scope. -/
def fixed (c : Content) : Content :=
  (c.mapElements fun _ => #[]).mapBindings fun _ => #[]

def isScope : Content → Bool
  | scope .. => true
  | _ => false

/-- Whether scripts never get hold of the object: the global object and the scopes are not for them. -/
def isPrivate : Content → Bool
  | global | scope .. => true
  | _ => false

variable (c : Content)

@[simp]
theorem fixed_mapElements (f : Array Value → Array Value) : (c.mapElements f).fixed = c.fixed := by
  cases c <;> rfl

@[simp]
theorem fixed_mapBindings (f : Array Binding → Array Binding) : (c.mapBindings f).fixed = c.fixed := by
  cases c <;> rfl

theorem isScope_fixed : c.fixed.isScope = c.isScope := by
  cases c <;> rfl

theorem isPrivate_fixed : c.fixed.isPrivate = c.isPrivate := by
  cases c <;> rfl

theorem isCallable_fixed : c.fixed.isCallable = c.isCallable := by
  cases c <;> rfl

theorem isArray_fixed : c.fixed.isArray = c.isArray := by
  cases c <;> rfl

theorem scope?_fixed : c.fixed.scope? = c.scope? := by
  cases c <;> rfl

end Content

/-- What an operation that stores the values `vs` makes of an object. -/
structure HeapObject.Becomes (o : HeapObject) (vs : List Value) (o' : HeapObject) : Prop where
  stableId : o'.stableId = o.stableId
  fixed : o'.content.fixed = o.content.fixed
  values : ∀ v ∈ o'.values, v ∈ o.values ∨ v ∈ vs ∨ v = .undefined

namespace HeapObject

variable {o : HeapObject} {v : Value}

theorem becomes_self (o : HeapObject) (vs : List Value) : o.Becomes vs o :=
  ⟨rfl, rfl, fun _ hv => Or.inl hv⟩

theorem becomes_slots {slots : Array Value} (hslots : ∀ v' ∈ slots, v' ∈ o.slots ∨ v' = v)
    (shape : ShapeId)
    : o.Becomes [v] { o with shape := shape, slots := slots } := by
  refine ⟨rfl, rfl, ?_⟩
  intro v' hv'
  rcases List.mem_append.1 hv' with hv' | hv'
  . rcases hslots v' (Array.mem_def.2 hv') with hv' | rfl
    . exact Or.inl (List.mem_append_left _ (Array.mem_def.1 hv'))
    . exact Or.inr (Or.inl List.mem_cons_self)
  . exact Or.inl (List.mem_append_right _ hv')

theorem becomes_content {vs : List Value} {content : Content} (hfixed : content.fixed = o.content.fixed)
    (hvalues : ∀ v ∈ content.values, v ∈ o.content.values ∨ v ∈ vs ∨ v = .undefined)
    : o.Becomes vs { o with content := content } := by
  refine ⟨rfl, hfixed, ?_⟩
  intro v hv
  rcases List.mem_append.1 hv with hv | hv
  . exact Or.inl (List.mem_append_left _ hv)
  . exact (hvalues v hv).imp_left (List.mem_append_right _)

theorem becomes_putElement (o : HeapObject) (index : Nat) (v : Value)
    : o.Becomes [v]
        { o with content := o.content.mapElements fun elements => Heap.putElement elements index v } := by
  apply becomes_content (Content.fixed_mapElements ..)
  cases o.content with
  | array elements =>
    intro v' hv'
    rcases Heap.mem_putElement (Array.mem_def.2 hv') with hv' | rfl | rfl
    . exact Or.inl (Array.mem_def.1 hv')
    . exact Or.inr (Or.inl List.mem_cons_self)
    . exact Or.inr (Or.inr rfl)
  | _ => exact fun _ hv' => Or.inl hv'

theorem becomes_bindings (o : HeapObject) (b : Binding) {f : Array Binding → Array Binding}
    (hf : ∀ bindings, ∀ b' ∈ f bindings, b' ∈ bindings ∨ b' = b)
    : o.Becomes [b.value] { o with content := o.content.mapBindings f } := by
  apply becomes_content (Content.fixed_mapBindings ..)
  cases o.content with
  | scope parent bindings =>
    intro v hv
    obtain ⟨b', hb', rfl⟩ := List.mem_map.1 hv
    rcases hf bindings b' (Array.mem_def.2 hb') with hb' | rfl
    . exact Or.inl (List.mem_map_of_mem (Array.mem_def.1 hb'))
    . exact Or.inr (Or.inl List.mem_cons_self)
  | _ => exact fun _ hv => Or.inl hv

end HeapObject

namespace Heap

variable {h h' h₁ : Heap} {op : Op} {id : ObjectId}

theorem getElem?_object (hid : h.Has id) : h.objects[id.index]? = some (h.object id) := by
  unfold object
  rw [Array.getD_eq_getD_getElem?, Array.getElem?_eq_getElem hid]
  rfl

theorem object_of_getElem? {o : HeapObject} (ho : h.objects[id.index]? = some o)
    : h.Has id ∧ h.object id = o := by
  obtain ⟨hid, rfl⟩ := Array.getElem?_eq_some_iff.1 ho
  refine ⟨hid, ?_⟩
  have hobject := getElem?_object hid
  rw [ho] at hobject
  exact (Option.some.inj hobject).symm

/-- The values that an operation stores. -/
def Op.values : Op → List Value
  | allocate content => content.values
  | setProperty _ _ v | setElement _ _ v | declare _ _ v _ => [v]

/-- The objects that were there have become those after an operation, and at most one is new. -/
structure After (op : Op) (h h' : Heap) : Prop where
  old : ∀ {i : Nat} {o : HeapObject}, h.objects[i]? = some o →
    ∃ o', h'.objects[i]? = some o' ∧ o.Becomes op.values o'
  new : ∀ {i : Nat} {o' : HeapObject}, h'.objects[i]? = some o' →
    i < h.objects.size ∨ (op = .allocate o'.content ∧ i = h.objects.size ∧ o'.slots = #[])

theorem after_of_objects_eq (hobjects : h'.objects = h.objects) : After op h h' where
  old := by
    intro i o ho
    rw [hobjects]
    exact ⟨o, ho, o.becomes_self _⟩
  new := by
    intro i o' ho'
    rw [hobjects] at ho'
    exact Or.inl (Array.getElem?_eq_some_iff.1 ho').1

theorem after_modifyObject (hobjects : h₁.objects = h.objects) (id : ObjectId)
    {f : HeapObject → HeapObject} (hf : ∀ o : HeapObject, o.Becomes op.values (f o))
    : After op h (h₁.modifyObject id f) where
  old := by
    intro i o ho
    unfold Heap.modifyObject
    rw [Array.getElem?_modify, hobjects, ho]
    split
    . exact ⟨f o, rfl, hf o⟩
    . exact ⟨o, rfl, o.becomes_self _⟩
  new := by
    intro i o' ho'
    obtain ⟨hi, -⟩ := Array.getElem?_eq_some_iff.1 ho'
    unfold Heap.modifyObject at hi
    rw [Array.size_modify, hobjects] at hi
    exact Or.inl hi

theorem after_putArrayElement (hobjects : h₁.objects = h.objects) (id : ObjectId) (index : Nat)
    (v : Value)
    : After (.setElement id index v) h (h₁.putArrayElement id index v) :=
  after_modifyObject hobjects id fun o => o.becomes_putElement index v

theorem after_addObject (hobjects : h₁.objects = h.objects) (content : Content) (shape : ShapeId)
    : After (.allocate content) h (h₁.addObject content shape) where
  old := by
    intro i o ho
    refine ⟨o, ?_, o.becomes_self _⟩
    obtain ⟨hi, -⟩ := Array.getElem?_eq_some_iff.1 ho
    unfold addObject
    rw [Array.getElem?_push, hobjects, if_neg (Nat.ne_of_lt hi), ho]
  new := by
    intro i o' ho'
    unfold addObject at ho'
    rw [Array.getElem?_push, hobjects] at ho'
    split at ho'
    . next hi =>
      cases ho'
      exact Or.inr ⟨rfl, hi, rfl⟩
    . exact Or.inl (Array.getElem?_eq_some_iff.1 ho').1

theorem after_apply (op : Op) (h : Heap) : After op h (op.apply h) := by
  cases op with
  | allocate content =>
    change After _ h (exec (Heap.allocate content) h).2
    rcases allocate_cases content h with ⟨-, hexec⟩ | ⟨e, -, -, hexec⟩ | ⟨shape, h₁, -, hroot, hexec⟩
    . rw [hexec]
      exact after_of_objects_eq rfl
    . rw [hexec]
      exact after_of_objects_eq rfl
    . have hobjects : h₁.objects = (h.charged _).objects := objects_rootShape hroot
      rw [hexec]
      exact after_addObject (h := h) hobjects content shape
  | setProperty id key v =>
    change After _ h (exec (Heap.setProperty id key v) h).2
    rcases setProperty_cases id key v h with ⟨slot, -, hexec⟩ | ⟨-, -, hexec⟩ |
      ⟨e, -, -, -, hexec⟩ | ⟨shape, h₁, -, -, htransition, hexec⟩
    . rw [hexec]
      refine after_modifyObject rfl id fun o => ?_
      exact HeapObject.becomes_slots (fun _ hv => Array.mem_or_eq_of_mem_setIfInBounds hv) o.shape
    . rw [hexec]
      exact after_of_objects_eq rfl
    . rw [hexec]
      exact after_of_objects_eq rfl
    . have hobjects : h₁.objects = (h.charged _).objects := objects_transition htransition
      rw [hexec]
      refine after_modifyObject (h := h) hobjects id fun o => ?_
      exact HeapObject.becomes_slots (fun _ hv => Array.mem_push.1 hv) shape
  | setElement id index v =>
    change After _ h (exec (Heap.setElement id index v) h).2
    rcases setElement_cases id index v h with ⟨-, hexec⟩ | ⟨size, -, -, hexec⟩ |
      ⟨size, e, -, -, hexec⟩ | ⟨size, -, -, -, hexec⟩
    . rw [hexec]
      exact after_of_objects_eq rfl
    . rw [hexec]
      exact after_putArrayElement rfl id index v
    . rw [hexec]
      exact after_of_objects_eq rfl
    . have hobjects : (h.charged (growth size index)).objects = h.objects := rfl
      rw [hexec]
      exact after_putArrayElement hobjects id index v
  | declare id name v mutable =>
    change After _ h (exec (Heap.declare id name v mutable) h).2
    rcases declare_cases id name v mutable h with ⟨i, -, hexec⟩ | ⟨-, -, hexec⟩ | ⟨-, -, hexec⟩
    . rw [hexec]
      refine after_modifyObject rfl id fun o => ?_
      exact o.becomes_bindings ⟨name, v, mutable⟩ fun _ _ hb => Array.mem_or_eq_of_mem_setIfInBounds hb
    . rw [hexec]
      exact after_of_objects_eq rfl
    . have hobjects : (h.charged pointerSize).objects = h.objects := rfl
      rw [hexec]
      refine after_modifyObject hobjects id fun o => ?_
      exact o.becomes_bindings ⟨name, v, mutable⟩ fun _ _ hb => Array.mem_push.1 hb

theorem has_allocated {content : Content} {h' : Heap}
    (hallocate : exec (allocate content) h = (.ok id, h'))
    : h'.Has id := by
  rcases allocate_cases content h with ⟨-, hexec⟩ | ⟨e, -, -, hexec⟩ | ⟨shape, h₁, -, -, hexec⟩
  . rw [hallocate] at hexec
    cases hexec
  . rw [hallocate] at hexec
    cases hexec
  . rw [hallocate] at hexec
    cases hexec
    unfold Has addObject
    rw [Array.size_push]
    exact Nat.lt_succ_self _

theorem content_allocated {content : Content} (hallocate : exec (allocate content) h = (.ok id, h'))
    : h'.content id = content := by
  rcases allocate_cases content h with ⟨-, hexec⟩ | ⟨e, -, -, hexec⟩ | ⟨shape, h₁, -, -, hexec⟩
  . rw [hallocate] at hexec
    cases hexec
  . rw [hallocate] at hexec
    cases hexec
  . rw [hallocate] at hexec
    cases hexec
    unfold Heap.content object addObject
    rw [Array.getD_eq_getD_getElem?, Array.getElem?_push_size]
    rfl

/-- Every object of one heap is also in the other one, with the same stable id and fixed content. -/
def Retains (h h' : Heap) : Prop :=
  ∀ id, h.Has id → h'.Has id ∧ (h'.object id).stableId = (h.object id).stableId ∧
    (h'.content id).fixed = (h.content id).fixed

theorem retains_refl (h : Heap) : Retains h h :=
  fun _ hid => ⟨hid, rfl, rfl⟩

namespace Retains

variable {h'' : Heap} (hr : Retains h h')
include hr

theorem trans (hr' : Retains h' h'') : Retains h h'' := by
  intro id hid
  obtain ⟨hid', hstable, hfixed⟩ := hr id hid
  obtain ⟨hid'', hstable', hfixed'⟩ := hr' id hid'
  exact ⟨hid'', hstable'.trans hstable, hfixed'.trans hfixed⟩

theorem has (hid : h.Has id) : h'.Has id :=
  (hr id hid).1

theorem content (hid : h.Has id) : (h'.content id).fixed = (h.content id).fixed :=
  (hr id hid).2.2

theorem isArray (hid : h.Has id) : h'.isArray id = h.isArray id := by
  unfold Heap.isArray
  rw [← Content.isArray_fixed, hr.content hid, Content.isArray_fixed]

end Retains

theorem retains_apply (op : Op) (h : Heap) : Retains h (op.apply h) := by
  intro id hid
  obtain ⟨o', ho', hbecomes⟩ := (after_apply op h).old (getElem?_object hid)
  obtain ⟨hid', hobject⟩ := object_of_getElem? ho'
  refine ⟨hid', ?_, ?_⟩
  . rw [hobject, hbecomes.stableId]
  . unfold content
    rw [hobject, hbecomes.fixed]

end Heap
end ScriptHost
