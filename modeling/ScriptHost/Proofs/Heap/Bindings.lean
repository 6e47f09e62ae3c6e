import ScriptHost.Proofs.Heap.Run
import ScriptHost.Session.Variable

/-!
This module contains the bindings that the lookup of a variable finds. To assign to one of them is to bind
its name anew.
-/

namespace ScriptHost.Heap

variable {h : Heap} {name : String} {id scope : ObjectId} {i : Nat}

theorem bindingIndex?_of_findBinding? (hfound : h.findBinding? name scope = some (id, i))
    : h.bindingIndex? id name = some i := by
  fun_induction findBinding? h name scope with
  | case1 scope j hindex =>
    cases hfound
    exact hindex
  | case2 _ _ _ _ _ _ ih => exact ih hfound
  | case3 => cases hfound
  | case4 => cases hfound

theorem binding?_of_bindingIndex? (hindex : h.bindingIndex? id name = some i)
    : ∃ parent bindings b, h.content id = .scope parent bindings ∧ bindings[i]? = some b ∧
        b.name = name := by
  unfold bindingIndex? at hindex
  split at hindex
  . next parent bindings hcontent =>
    obtain ⟨hi, hname, -⟩ := Array.findIdx?_eq_some_iff_getElem.1 hindex
    exact ⟨parent, bindings, bindings[i], hcontent, Array.getElem?_eq_getElem hi, by simpa using hname⟩
  . cases hindex

theorem modifyObject_congr {f g : HeapObject → HeapObject} (hfg : f (h.object id) = g (h.object id))
    : h.modifyObject id f = h.modifyObject id g := by
  have hobjects : h.objects.modify id.index f = h.objects.modify id.index g := by
    apply Array.ext_getElem?
    intro j
    rw [Array.getElem?_modify, Array.getElem?_modify]
    split
    . next hj =>
      subst hj
      unfold object at hfg
      rw [Array.getD_eq_getD_getElem?] at hfg
      cases hobject : h.objects[id.index]? with
      | none => rfl
      | some o =>
        rw [hobject] at hfg
        exact congrArg some hfg
    . rfl
  unfold modifyObject
  rw [hobjects]

/-- To assign to a variable that may change is to bind its name anew. -/
theorem assignBinding_eq {v : Value} (hindex : h.bindingIndex? id name = some i)
    (hmutable : (h.binding? id i).map Binding.mutable = some true)
    : h.assignBinding id i v = (Op.declare id name v true).apply h := by
  have hdeclare : (Op.declare id name v true).apply h = h.putBinding id i ⟨name, v, true⟩ := by
    rcases declare_cases id name v true h with ⟨j, hj, hexec⟩ | ⟨hnone, -⟩ | ⟨hnone, -⟩
    . rw [hindex] at hj
      cases hj
      exact congrArg Prod.snd hexec
    . rw [hindex] at hnone
      cases hnone
    . rw [hindex] at hnone
      cases hnone
  obtain ⟨parent, bindings, b, hcontent, hb, rfl⟩ := binding?_of_bindingIndex? hindex
  have hb' : b.mutable = true := by
    simpa [binding?, hcontent, hb] using hmutable
  rw [hdeclare]
  apply modifyObject_congr
  have hobject : (h.object id).content = .scope parent bindings := hcontent
  have hbindings : (bindings.modify i fun b => { b with value := v })
      = bindings.setIfInBounds i ⟨b.name, v, true⟩ := by
    apply Array.ext_getElem?
    intro j
    rw [Array.getElem?_modify, Array.getElem?_setIfInBounds]
    split
    . next hj =>
      subst hj
      obtain ⟨hi, rfl⟩ := Array.getElem?_eq_some_iff.1 hb
      simp [hi, hb']
    . rfl
  simp only [hobject, Content.mapBindings, hbindings]

end ScriptHost.Heap
