import ScriptHost.Proofs.Heap.Bindings
import ScriptHost.Proofs.Heap.Elements
import ScriptHost.Proofs.Heap.Failure
import ScriptHost.Proofs.Heap.WellFormed

/-!
This module contains what names are bound to for code in a scope. To bind a name in a scope changes that for
this name only, and to set a property does not change it at all.
-/

namespace ScriptHost

theorem List.find?_set {bs : List Binding} {b : Binding} {i : Nat}
    (hi : bs.findIdx? (fun b' => b'.name == b.name) = some i) (name : String)
    : (bs.set i b).find? (fun b' => b'.name == name)
        = if name = b.name then some b else bs.find? (fun b' => b'.name == name) := by
  induction bs generalizing i with
  | nil => cases hi
  | cons c cs ih =>
    rw [List.findIdx?_cons] at hi
    by_cases hc : c.name = b.name
    . rw [if_pos (by rw [hc, beq_self_eq_true])] at hi
      cases hi
      rw [List.set_cons_zero, List.find?_cons, List.find?_cons, hc]
      by_cases hname : name = b.name
      . rw [if_pos hname, hname, beq_self_eq_true]
      . rw [if_neg hname, beq_false_of_ne fun heq => hname heq.symm]
    . rw [if_neg (by rw [beq_false_of_ne hc]; exact Bool.false_ne_true)] at hi
      obtain ⟨j, hj, rfl⟩ := Option.map_eq_some_iff.1 hi
      rw [List.set_cons_succ, List.find?_cons, List.find?_cons, ih hj]
      by_cases hname : name = b.name
      . rw [if_pos hname, if_pos hname, hname, beq_false_of_ne hc]
      . rw [if_neg hname, if_neg hname]

namespace Heap

variable {h h' : Heap} {name : String} {id scope : ObjectId} {i : Nat} {v : Value} {mutable : Bool}

/-- What a scope itself binds a name to. -/
def bound? (h : Heap) (id : ObjectId) (name : String) : Option Binding :=
  match h.content id with
  | .scope _ bindings => bindings.find? fun b => b.name == name
  | _ => none

/-- What a name is bound to for code in a scope. -/
def lookup? (h : Heap) (name : String) (id : ObjectId) : Option Binding :=
  (h.findBinding? name id).bind fun place => h.binding? place.1 place.2

theorem bound?_of_content {parent : Option ObjectId} {bindings : Array Binding}
    (hcontent : h.content id = .scope parent bindings) (name : String)
    : h.bound? id name = bindings.find? fun b => b.name == name := by
  unfold bound?
  rw [hcontent]

theorem bindingIndex?_of_content {parent : Option ObjectId} {bindings : Array Binding}
    (hcontent : h.content id = .scope parent bindings) (name : String)
    : h.bindingIndex? id name = bindings.findIdx? fun b => b.name == name := by
  unfold bindingIndex?
  rw [hcontent]

theorem HasScope.content (hid : h.HasScope id)
    : ∃ parent bindings, h.content id = .scope parent bindings := by
  unfold HasScope at hid
  cases hcontent : h.content id with
  | scope parent bindings => exact ⟨parent, bindings, rfl⟩
  | _ =>
    rw [hcontent] at hid
    cases hid

theorem bound?_of_bindingIndex? (hindex : h.bindingIndex? id name = some i)
    : h.binding? id i = h.bound? id name := by
  obtain ⟨parent, bindings, hcontent⟩ := (hasScope_of_bindingIndex? hindex).content
  rw [bindingIndex?_of_content hcontent] at hindex
  obtain ⟨hi, hname, hfirst⟩ := Array.findIdx?_eq_some_iff_getElem.1 hindex
  rw [bound?_of_content hcontent]
  have hbinding : h.binding? id i = some bindings[i] := by
    unfold binding?
    rw [hcontent]
    exact Array.getElem?_eq_getElem hi
  rw [hbinding, eq_comm, Array.find?_eq_some_iff_getElem]
  exact ⟨hname, i, hi, rfl, fun j hj => by simpa using hfirst j hj⟩

theorem bound?_eq_none_iff : h.bound? id name = none ↔ h.bindingIndex? id name = none := by
  unfold bound? bindingIndex?
  cases h.content id with
  | scope parent bindings =>
    dsimp only
    rw [Array.find?_eq_none, Array.findIdx?_eq_none_iff]
    simp only [Bool.not_eq_true]
  | _ => exact ⟨fun _ => rfl, fun _ => rfl⟩

/-- A name that a scope does not bind itself is looked up in the scope around it. -/
theorem WellFormed.lookup?_eq (hw : h.WellFormed) (hid : h.HasScope id) (name : String)
    : h.lookup? name id = (h.bound? id name).or ((h.content id).scope?.bind (h.lookup? name)) := by
  obtain ⟨parent, bindings, hcontent⟩ := hid.content
  unfold lookup?
  rw [hw.findBinding?_eq, hcontent]
  cases hindex : h.bindingIndex? id name with
  | some i =>
    rw [← bound?_of_bindingIndex? hindex]
    obtain ⟨_, _, b, hcontent, hb, -⟩ := binding?_of_bindingIndex? hindex
    have hsome : h.binding? id i = some b := by
      unfold binding?
      rw [hcontent]
      exact hb
    change h.binding? id i = _
    rw [hsome]
    rfl
  | none =>
    rw [bound?_eq_none_iff.2 hindex]
    cases parent <;> rfl

/-- Code in a scope is in the scopes around it as well. -/
theorem WellFormed.scope_induction (hw : h.WellFormed) {P : ObjectId → Prop}
    (hP : ∀ id, h.HasScope id → (∀ outer ∈ (h.content id).scope?, P outer) → P id)
    (hid : h.HasScope id)
    : P id := by
  obtain ⟨n, hn⟩ : ∃ n, n = id.index := ⟨_, rfl⟩
  induction n using Nat.strongRecOn generalizing id with
  | ind n ih =>
    apply hP id hid
    intro outer houter
    obtain ⟨hscope, hlt⟩ := hw.scopes id outer houter
    exact ih outer.index (hn ▸ hlt) hscope rfl

/-- If all scopes bind a name as before, so does what is in them. -/
theorem WellFormed.lookup?_congr (hw : h.WellFormed) (hw' : h'.WellFormed) (hr : Retains h h')
    (hbound : ∀ id, h.HasScope id → h'.bound? id name = h.bound? id name) (hid : h.HasScope id)
    : h'.lookup? name id = h.lookup? name id := by
  refine hw.scope_induction (P := fun id => h'.lookup? name id = h.lookup? name id) ?_ hid
  intro id hid ih
  rw [hw.lookup?_eq hid, hw'.lookup?_eq (hr.hasScope hid), hbound id hid, hr.scope? hid.has]
  cases houter : (h.content id).scope? with
  | none => rfl
  | some outer => exact congrArg _ (ih outer houter)

/-! What operations change. -/

theorem bound?_setProperty (hid : h.Has id) (id' : ObjectId) (key : String) (v : Value) (name : String)
    : ((Op.setProperty id' key v).apply h).bound? id name = h.bound? id name := by
  unfold bound?
  have hcontent : ((Op.setProperty id' key v).apply h).content id = h.content id := content_setProperty hid
  rw [hcontent]

theorem bound?_declare (hscope : h.HasScope scope) (hid : h.Has id)
    (hok : (Op.declare scope name v mutable).result h = .ok ()) (name' : String)
    : ((Op.declare scope name v mutable).apply h).bound? id name'
        = if id = scope ∧ name' = name then some ⟨name, v, mutable⟩ else h.bound? id name' := by
  obtain ⟨parent, bindings, hcontent⟩ := hscope.content
  -- in which way ever the bindings of the scope change, they bind this name and no other one anew
  have hchange : ∀ {h₁ : Heap} (f : Array Binding → Array Binding), h₁.objects = h.objects →
      (∀ name', (f bindings).find? (fun b => b.name == name')
        = if name' = name then some ⟨name, v, mutable⟩ else bindings.find? (fun b => b.name == name')) →
      (h₁.modifyContent scope (.mapBindings f)).bound? id name'
        = if id = scope ∧ name' = name then some ⟨name, v, mutable⟩ else h.bound? id name' := by
    intro h₁ f hobjects hf
    have hcontent' := content_modifyContent (has_of_objects_eq hobjects hid) scope (.mapBindings f)
    rw [content_of_objects_eq hobjects] at hcontent'
    by_cases heq : id = scope
    . rw [heq, if_pos rfl, hcontent] at hcontent'
      rw [heq, bound?_of_content hcontent', bound?_of_content hcontent, hf]
      simp only [true_and]
    . rw [if_neg heq] at hcontent'
      rw [if_neg fun hboth => heq hboth.1]
      unfold bound?
      rw [hcontent']
  rcases declare_cases scope name v mutable h with ⟨i, hindex, hexec⟩ | ⟨-, -, hexec⟩ |
    ⟨hindex, -, hexec⟩
  . have happly : (Op.declare scope name v mutable).apply h = h.putBinding scope i ⟨name, v, mutable⟩ :=
      congrArg Prod.snd hexec
    have hindex : bindings.toList.findIdx? (fun b => b.name == name) = some i := by
      rw [← List.findIdx?_toArray, Array.toArray_toList, ← bindingIndex?_of_content hcontent, hindex]
    rw [happly]
    apply hchange _ rfl
    intro name'
    rw [← Array.find?_toList, Array.toList_setIfInBounds, List.find?_set hindex, Array.find?_toList]
  . rw [Op.result, hexec] at hok
    cases hok
  . have happly : (Op.declare scope name v mutable).apply h
        = (h.charged pointerSize).addBinding scope ⟨name, v, mutable⟩ := congrArg Prod.snd hexec
    have hnone := bound?_eq_none_iff.2 hindex
    rw [bound?_of_content hcontent] at hnone
    rw [happly]
    apply hchange _ rfl
    intro name'
    rw [Array.find?_push]
    by_cases hname : name' = name
    . rw [if_pos hname, hname, hnone, beq_self_eq_true]
      rfl
    . rw [if_neg hname, beq_false_of_ne fun heq => hname heq.symm]
      exact Option.or_none

section Declare

variable (hscope : h.HasScope scope) (hw' : ((Op.declare scope name v mutable).apply h).WellFormed)
  (hok : (Op.declare scope name v mutable).result h = .ok ())
include hscope hw' hok

theorem lookup?_declare
    : ((Op.declare scope name v mutable).apply h).lookup? name scope = some ⟨name, v, mutable⟩ := by
  rw [hw'.lookup?_eq ((retains_apply _ h).hasScope hscope), bound?_declare hscope hscope.has hok,
    if_pos ⟨rfl, rfl⟩]
  rfl

variable (hw : h.WellFormed)
include hw

theorem lookup?_declare_of_ne (hid : h.HasScope id) {name' : String} (hne : name' ≠ name)
    : ((Op.declare scope name v mutable).apply h).lookup? name' id = h.lookup? name' id := by
  apply hw.lookup?_congr hw' (retains_apply _ h) _ hid
  intro id hid
  rw [bound?_declare hscope hid.has hok, if_neg fun hboth => hne hboth.2]

/-- A name that has been bound anew in the scope where it was found is found there again. -/
theorem lookup?_declare_of_found (hid : h.HasScope id) (hfound : h.findBinding? name id = some (scope, i))
    : ((Op.declare scope name v mutable).apply h).lookup? name id = some ⟨name, v, mutable⟩ := by
  have hr := retains_apply (Op.declare scope name v mutable) h
  revert hfound
  refine hw.scope_induction (P := fun id => h.findBinding? name id = some (scope, i) →
    ((Op.declare scope name v mutable).apply h).lookup? name id = some ⟨name, v, mutable⟩) ?_ hid
  intro id hid ih hfound
  by_cases heq : id = scope
  . rw [heq]
    exact lookup?_declare hscope hw' hok
  . rw [hw.findBinding?_eq] at hfound
    cases hindex : h.bindingIndex? id name with
    | some j =>
      rw [hindex] at hfound
      cases hfound
      exact absurd rfl heq
    | none =>
      obtain ⟨outer?, bindings, hcontent⟩ := hid.content
      rw [hindex, hcontent] at hfound
      cases outer? with
      | none => cases hfound
      | some outer =>
        have houter : (h.content id).scope? = some outer := by
          rw [hcontent]
          rfl
        rw [hw'.lookup?_eq (hr.hasScope hid), bound?_declare hscope hid.has hok, if_neg fun hboth => heq hboth.1,
          bound?_eq_none_iff.2 hindex, hr.scope? hid.has, houter]
        exact ih outer houter hfound

end Declare

theorem WellFormed.lookup?_setProperty (hw : h.WellFormed) {key : String}
    (hw' : ((Op.setProperty id key v).apply h).WellFormed) (hscope : h.HasScope scope) (name : String)
    : ((Op.setProperty id key v).apply h).lookup? name scope = h.lookup? name scope :=
  hw.lookup?_congr hw' (retains_apply _ h) (fun _ hid => bound?_setProperty hid.has id key v name) hscope

end Heap
end ScriptHost
