import ScriptHost.Proofs.Heap.Budget
import ScriptHost.Proofs.Heap.Properties
import ScriptHost.Proofs.Heap.Retained

/-!
This module contains the elements of arrays. Setting an element gives it its value and leaves all others as
they were; an array that has to grow for it has no value at the places in between. Setting a property leaves
the contents of all objects as they are.
-/

namespace ScriptHost.Heap

variable {h h' h₁ : Heap} {id id' : ObjectId} {key : String} {v : Value} {elements : Array Value} {i j : Nat}

theorem content_of_isArray (harray : h.isArray id) : ∃ elements, h.content id = .array elements := by
  unfold isArray at harray
  cases hcontent : h.content id with
  | array elements => exact ⟨elements, rfl⟩
  | _ =>
    rw [hcontent] at harray
    cases harray

theorem isArray_of_content (hcontent : h.content id = .array elements) : h.isArray id := by
  unfold isArray
  rw [hcontent]
  rfl

theorem arraySize?_of_content (hcontent : h.content id = .array elements)
    : h.arraySize? id = some elements.size := by
  unfold arraySize?
  rw [hcontent]

theorem content_of_arraySize? {size : Nat} (hsize : h.arraySize? id = some size)
    : ∃ elements, h.content id = .array elements ∧ elements.size = size := by
  unfold arraySize? at hsize
  split at hsize
  . next elements hcontent => exact ⟨elements, hcontent, Option.some.inj hsize⟩
  . cases hsize

/-- A place that does not exist reads as no value, like one that came about on the way to another. -/
theorem getD_putElement
    : (putElement elements i v)[j]?.getD .undefined = if j = i then v else elements[j]?.getD .undefined := by
  unfold putElement
  split
  . next hlt =>
    rw [Array.getElem?_setIfInBounds]
    split
    . next heq =>
      rw [if_pos heq.symm]
      rfl
    . next hne => rw [if_neg fun heq => hne heq.symm]
  . next hge =>
    have hsize : (elements ++ Array.replicate (i - elements.size) Value.undefined).size = i := by
      rw [Array.size_append, Array.size_replicate]
      omega
    rw [Array.getElem?_push, hsize]
    split
    . rfl
    . rw [Array.getElem?_append]
      split
      . rfl
      . next hbeyond =>
        rw [Array.getElem?_eq_none (Nat.not_lt.1 hbeyond), Array.getElem?_replicate]
        split <;> rfl

theorem content_modifyObject (hid : h.Has id) (id' : ObjectId) {f : HeapObject → HeapObject}
    (hf : ∀ o, (f o).content = o.content) : (h.modifyObject id' f).content id = h.content id := by
  unfold content
  rw [object_modifyObject hid]
  split
  . exact hf _
  . rfl

theorem content_of_objects_eq (hobjects : h'.objects = h.objects) (id : ObjectId)
    : h'.content id = h.content id := by
  unfold content
  rw [object_of_objects_eq hobjects]

theorem content_modifyContent (hid : h.Has id) (id' : ObjectId) (f : Content → Content)
    : (h.modifyContent id' f).content id = if id = id' then f (h.content id) else h.content id := by
  unfold content modifyContent
  rw [object_modifyObject hid]
  by_cases heq : id = id'
  . rw [if_pos heq.symm, if_pos heq]
  . rw [if_neg fun h => heq h.symm, if_neg heq]

theorem content_setProperty (hid : h.Has id) {id' : ObjectId}
    : (exec (setProperty id' key v) h).2.content id = h.content id := by
  rcases setProperty_cases id' key v h with ⟨slot, -, hexec⟩ | ⟨-, -, hexec⟩ |
    ⟨e, -, -, -, hexec⟩ | ⟨shape, h₁, -, -, htransition, hexec⟩
  . rw [hexec]
    exact content_modifyObject hid id' fun _ => rfl
  . rw [hexec]
  . rw [hexec]
    rfl
  . have hobjects : h₁.objects = (h.charged pointerSize).objects := objects_transition htransition
    have hmodify := content_modifyObject (has_of_objects_eq hobjects hid) id' (f := fun o =>
      { o with shape := shape, slots := o.slots.push v }) fun _ => rfl
    rw [hexec]
    exact hmodify.trans (content_of_objects_eq hobjects id)

/-- Setting an element changes that element of that array, and no other object. -/
theorem setElement_done (hset : exec (setElement id i v) h = (.ok (), h')) (hid : h.Has id')
    : h'.content id'
        = (if id' = id then (h.content id').mapElements fun elements => putElement elements i v
          else h.content id') ∧
      ∀ key, h'.property? id' key = h.property? id' key := by
  rcases setElement_cases id i v h with ⟨hnone, hexec⟩ | ⟨size, -, -, hexec⟩ | ⟨size, e, -, -, hexec⟩ |
    ⟨size, -, -, -, hexec⟩
  . rw [hset] at hexec
    cases hexec
    refine ⟨?_, fun _ => rfl⟩
    split
    . next heq =>
      unfold arraySize? at hnone
      rw [← heq] at hnone
      cases hcontent : h.content id' with
      | array elements =>
        rw [hcontent] at hnone
        cases hnone
      | _ => rfl
    . rfl
  . rw [hset] at hexec
    cases hexec
    exact ⟨content_modifyContent hid id _, property?_modifyContent hid id _⟩
  . rw [hset] at hexec
    cases hexec
  . rw [hset] at hexec
    cases hexec
    exact ⟨content_modifyContent (h := h.charged (growth size i)) hid id _,
      property?_modifyContent (h := h.charged (growth size i)) hid id _⟩

end ScriptHost.Heap
