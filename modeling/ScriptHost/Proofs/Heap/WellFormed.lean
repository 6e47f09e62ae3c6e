import ScriptHost.Proofs.Heap.Retained
import ScriptHost.Session.Variable

/-!
This module contains the heaps that scripts leave behind: their values are never private objects, and
every scope and every closure is younger than the scope around it.
-/

namespace ScriptHost.Heap

variable {h h' : Heap} {op : Op} {id : ObjectId} {v : Value}

/-- Scripts may hold the value: if it is an object, that exists and is not private. -/
def HasPublic (h : Heap) (v : Value) : Prop :=
  ∀ id, v = .object id → h.Has id ∧ (h.content id).isPrivate = false

def HasScope (h : Heap) (id : ObjectId) : Prop :=
  (h.content id).isScope = true

structure WellFormed (h : Heap) : Prop where
  values : ∀ id, ∀ v ∈ (h.object id).values, h.HasPublic v
  scopes : ∀ id, ∀ outer ∈ (h.content id).scope?, h.HasScope outer ∧ outer.index < id.index

theorem hasPublic_object
    : h.HasPublic (.object id) ↔ h.Has id ∧ (h.content id).isPrivate = false := by
  simp [HasPublic]

theorem hasPublic_of_object?_eq_none (hv : v.object? = none) : h.HasPublic v := by
  rintro id rfl
  cases hv

theorem HasPublic.hasValue (hv : h.HasPublic v) : h.HasValue v :=
  fun id hid => (hv id hid).1

theorem HasScope.has (hid : h.HasScope id) : h.Has id := by
  apply has_of_content_ne
  intro hcontent
  unfold HasScope at hid
  rw [hcontent] at hid
  cases hid

namespace Retains

variable (hr : Retains h h')
include hr

theorem isPrivate (hid : h.Has id) : (h'.content id).isPrivate = (h.content id).isPrivate := by
  rw [← Content.isPrivate_fixed, hr.content hid, Content.isPrivate_fixed]

theorem isCallable (hid : h.Has id) : h'.isCallable id = h.isCallable id := by
  unfold Heap.isCallable
  rw [← Content.isCallable_fixed, hr.content hid, Content.isCallable_fixed]

theorem scope? (hid : h.Has id) : (h'.content id).scope? = (h.content id).scope? := by
  rw [← Content.scope?_fixed, hr.content hid, Content.scope?_fixed]

theorem content_global (hid : h.Has id) (hcontent : h.content id = .global)
    : h'.content id = .global := by
  have hfixed := hr.content hid
  rw [hcontent] at hfixed
  cases hafter : h'.content id <;> rw [hafter] at hfixed <;> cases hfixed

theorem hasPublic (hv : h.HasPublic v) : h'.HasPublic v := by
  intro id hid
  obtain ⟨hin, hprivate⟩ := hv id hid
  exact ⟨hr.has hin, by rw [hr.isPrivate hin, hprivate]⟩

theorem hasScope (hid : h.HasScope id) : h'.HasScope id := by
  have hin := hid.has
  unfold HasScope at *
  rw [← Content.isScope_fixed, hr.content hin, Content.isScope_fixed, hid]

end Retains

/-- The scope that is around what an operation makes. -/
def Op.scope? : Op → Option ObjectId
  | allocate content => content.scope?
  | setProperty .. | setElement .. | declare .. => none

/-- The operation stores public values only, and makes nothing inside of an object that is no scope. -/
structure Op.Proper (h : Heap) (op : Op) : Prop where
  values : ∀ v ∈ op.values, h.HasPublic v
  scope : ∀ outer ∈ op.scope?, h.HasScope outer

theorem wellFormed_empty (limit : Nat) : (empty limit).WellFormed where
  values _ := nofun
  scopes _ := nofun

theorem WellFormed.apply (hw : h.WellFormed) (hop : op.Proper h) : (op.apply h).WellFormed := by
  have hr := retains_apply op h
  have hafter := after_apply op h
  constructor
  . intro id v hv
    by_cases hid : (op.apply h).Has id
    . rcases hafter.new (getElem?_object hid) with hold | ⟨hnew, -, hslots⟩
      . obtain ⟨o', ho', hbecomes⟩ := hafter.old (getElem?_object (h := h) hold)
        obtain ⟨-, rfl⟩ := object_of_getElem? ho'
        rcases hbecomes.values v hv with hv | hv | rfl
        . exact hr.hasPublic (hw.values id v hv)
        . exact hr.hasPublic (hop.values v hv)
        . exact hasPublic_of_object?_eq_none rfl
      . unfold HeapObject.values at hv
        rw [hslots] at hv
        apply hr.hasPublic
        apply hop.values
        rw [hnew]
        exact hv
    . rw [object_of_not_has hid] at hv
      cases hv
  . intro id outer houter
    by_cases hid : (op.apply h).Has id
    . rcases hafter.new (getElem?_object hid) with hold | ⟨hnew, hindex, -⟩
      . rw [hr.scope? hold] at houter
        obtain ⟨hscope, hlt⟩ := hw.scopes id outer houter
        exact ⟨hr.hasScope hscope, hlt⟩
      . -- what is new comes after all scopes
        have hscope : h.HasScope outer := by
          apply hop.scope
          rw [hnew]
          exact houter
        refine ⟨hr.hasScope hscope, ?_⟩
        rw [hindex]
        exact hscope.has
    . unfold content at houter
      rw [object_of_not_has hid] at houter
      cases houter

theorem hasScope_of_bindingIndex? {name : String} {i : Nat} (hindex : h.bindingIndex? id name = some i)
    : h.HasScope id := by
  unfold bindingIndex? at hindex
  split at hindex
  . next hcontent =>
    unfold HasScope
    rw [hcontent]
    rfl
  . cases hindex

/-- The lookup of a name goes on in the scope around a scope, whichever it is. -/
theorem WellFormed.findBinding?_eq (hw : h.WellFormed) (name : String) (id : ObjectId)
    : h.findBinding? name id
        =
      match h.bindingIndex? id name with
      | some i => some (id, i)
      | none =>
        match h.content id with
        | .scope (some outer) _ => h.findBinding? name outer
        | _ => none := by
  rw [findBinding?]
  cases h.bindingIndex? id name with
  | some i => rfl
  | none =>
    dsimp only
    cases hcontent : h.content id with
    | scope outer? bindings =>
      cases outer? with
      | some outer =>
        have houter := hw.scopes id outer (by rw [hcontent]; rfl)
        dsimp only
        rw [if_pos houter.2]
      | none => rfl
    | _ => rfl

end ScriptHost.Heap
