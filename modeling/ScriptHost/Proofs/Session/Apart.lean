import ScriptHost.Proofs.Discipline.Strengthened
import ScriptHost.Proofs.Heap.Elements
import ScriptHost.Proofs.Session.Index
import ScriptHost.Proofs.Session.WellFormed

/-!
This module contains that the properties and the elements of an array are kept apart: at no moment of a
session has an array a property of its own whose key is the position of an element.
-/

namespace ScriptHost

namespace Heap

variable {h : Heap} {id : ObjectId}

def Apart (h : Heap) : Prop :=
  ∀ id key, h.isArray id → (arrayIndex? key).isSome → h.property? id key = none

theorem has_of_isArray (harray : h.isArray id) : h.Has id := by
  obtain ⟨elements, hcontent⟩ := content_of_isArray harray
  exact has_of_content hcontent nofun

theorem property?_of_not_has (hid : ¬ h.Has id) (key : String) : h.property? id key = none := by
  rw [property?_eq, object_of_not_has hid]
  have hslots : (default : HeapObject).slots = #[] := rfl
  rw [hslots]
  simp

/-- An object that was not there before an operation has no properties after it. -/
theorem property?_new {op : Op} (hid : ¬ h.Has id) (key : String)
    : (op.apply h).property? id key = none := by
  by_cases hid' : (op.apply h).Has id
  . have hslots : ((op.apply h).object id).slots = #[] := by
      rcases (after_apply op h).new (getElem?_object hid') with hold | ⟨-, -, hslots⟩
      . exact absurd hold hid
      . exact hslots
    rw [property?_eq, hslots]
    simp
  . exact property?_of_not_has hid' key

theorem Apart.apply (ha : h.Apart) (hl : h.Linked) {op : Op} (hop : op.Names h)
    (hfits : ∀ id key v, op = .setProperty id key v → h.isArray id → arrayIndex? key = none)
    : (op.apply h).Apart := by
  intro id key harray hkey
  by_cases hid : h.Has id
  . have harray' : h.isArray id := ((retains_apply op h).isArray hid).symm.trans harray
    rw [hl.property?_apply hop hid]
    . exact ha id key harray' hkey
    . rintro v rfl
      rw [hfits id key v rfl harray'] at hkey
      cases hkey
  . exact property?_new hid key

end Heap

namespace Discipline

instance : encapsulated.Supports fun s => s.heap.Apart where
  change {s s'} hs ha hm := by
    rcases hm.heap with heq | ⟨op, hop, hfits, heq⟩
    . rw [heq]
      exact ha
    . have hnames := linked_names hs.linked ((encapsulated_allows s).does hop)
      rw [heq]
      apply ha.apply hs.linked.heap hnames
      intro id key v hset harray
      apply hfits id key v hset ?_ harray
      -- the global object is no array
      rintro rfl
      unfold Heap.isArray at harray
      rw [hs.global] at harray
      cases harray
  moved ha := ha

end Discipline

namespace Session

variable {s : Session}

theorem isArray_start {config : Config} (hstart : Session.start config = .ok s) (id : ObjectId)
    : s.heap.isArray id = false := by
  have happly : ∀ (op : Heap.Op) {h : Heap}, (∀ content, op = .allocate content → content.isArray = false) →
      (∀ id, h.isArray id = false) → ∀ id, (op.apply h).isArray id = false := by
    intro op h hop hnone id
    by_cases hid' : (op.apply h).Has id
    . rcases (Heap.after_apply op h).new (Heap.getElem?_object hid') with hid | ⟨heq, -, -⟩
      . rw [(Heap.retains_apply op h).isArray hid]
        exact hnone id
      . exact hop _ heq
    . have hdefault := Heap.object_of_not_has hid'
      unfold Heap.isArray Heap.content
      rw [hdefault]
      rfl
  have hglobal : Heap.Ensures (fun h => ∀ id, h.isArray id = false) (fun _ _ => True) Heap.newGlobal
      (.empty config.heapLimit) := by
    apply Heap.ensures_newGlobal (V := fun _ _ => True)
    . exact ⟨happly (.allocate .global) (fun _ h => by cases h; rfl) fun _ => rfl, fun _ _ => trivial⟩
    . intro _ h hnone _ builtin
      refine ⟨happly (.allocate (.native builtin)) (fun _ h => by cases h; rfl) hnone, ?_⟩
      exact fun _ _ => ⟨trivial, trivial⟩
    . intro id h hnone _ key v _
      exact ⟨happly (.setProperty id key v) nofun hnone, fun _ _ => trivial⟩
    . exact fun _ _ => trivial
  obtain ⟨global, -, rfl⟩ := start_eq hstart
  exact hglobal.1 id

theorem apart_start {config : Config} (hstart : Session.start config = .ok s) : s.heap.Apart := by
  intro id key harray
  rw [isArray_start hstart] at harray
  cases harray

theorem Visited.apart (hv : s.Visited) : s.heap.Apart := by
  have hinv := hv.inv (D := Discipline.encapsulated.strengthened fun s => s.heap.Apart) fun _ _ hstart =>
    ⟨wellFormed_start hstart, apart_start hstart⟩
  exact hinv.2

end Session
end ScriptHost
