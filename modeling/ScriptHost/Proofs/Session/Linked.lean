import ScriptHost.Proofs.Heap.Budget
import ScriptHost.Proofs.Heap.Keys
import ScriptHost.Proofs.Session.Reachable
import ScriptHost.Proofs.Snapshot.Live

/-!
This module contains that the sessions of a host are linked: all that they refer to is in their heap.
Their constants are properties of the global object, unless there was no memory for that.
-/

namespace ScriptHost

namespace Heap

variable {h : Heap} {id : ObjectId} {key : String} {v : Value}

theorem Linked.hasValue_of_mem (hl : h.Linked) (id : ObjectId) (hv : v ∈ (h.object id).values)
    : h.HasValue v := by
  by_cases hid : h.Has id
  . have ho := hl.object hid
    rcases List.mem_append.1 hv with hv | hv
    . exact ho.slotValues v (Array.mem_def.2 hv)
    . exact ho.content.values v hv
  . -- an object that does not exist is read as one without values
    rw [object_of_not_has hid] at hv
    cases hv

theorem mem_values_of_property? (hread : h.property? id key = some v) : v ∈ (h.object id).values := by
  obtain ⟨slot, -, hslot⟩ := Option.bind_eq_some_iff.1 hread
  exact List.mem_append_left _ (Array.mem_def.1 (Array.mem_of_getElem? hslot))

theorem mem_values_of_content (hv : v ∈ (h.content id).values) : v ∈ (h.object id).values :=
  List.mem_append_right _ hv

theorem mem_values_of_element {elements : Array Value} (hcontent : h.content id = .array elements)
    (hv : v ∈ elements)
    : v ∈ (h.object id).values := by
  apply mem_values_of_content
  rw [hcontent]
  exact Array.mem_def.1 hv

/-- What an object has beside its properties is a part of its content, or no object at all. -/
theorem builtinMember_cases (content : Content) (key : String)
    : (builtinMember content key).object? = none ∨ builtinMember content key ∈ content.values := by
  cases content with
  | array elements =>
    unfold builtinMember
    dsimp only
    split
    . exact Or.inl rfl
    . cases helement : (arrayIndex? key).bind fun i => elements[i]? with
      | none => exact Or.inl rfl
      | some v =>
        obtain ⟨i, -, hi⟩ := Option.bind_eq_some_iff.1 helement
        exact Or.inr (Array.mem_def.1 (Array.mem_of_getElem? hi))
  | closure f parent script =>
    unfold builtinMember
    dsimp only
    split
    . exact Or.inl rfl
    . split <;> exact Or.inl rfl
  | native | error =>
    unfold builtinMember
    dsimp only
    split <;> exact Or.inl rfl
  | ordinary | global | scope => exact Or.inl rfl

/-- What is read of an object is one of its values, or no object at all. -/
theorem member_cases (h : Heap) (id : ObjectId) (key : String)
    : (h.member id key).object? = none ∨ h.member id key ∈ (h.object id).values := by
  unfold member
  cases hread : h.property? id key with
  | some v => exact .inr (mem_values_of_property? hread)
  | none => exact (builtinMember_cases (h.content id) key).imp_right mem_values_of_content

theorem Linked.hasValue_member (hl : h.Linked) (id : ObjectId) (key : String)
    : h.HasValue (h.member id key) := by
  rcases h.member_cases id key with hplain | hmem
  . exact hasValue_of_object?_eq_none hplain
  . exact hl.hasValue_of_mem id hmem

end Heap

namespace Session

/-- A constant is a property of the global object, or there is no memory for one more shape. -/
def HasConst (s : Session) (name : String) : Prop :=
  s.heap.hasProperty s.global name = true ∨ s.heap.limit < s.heap.used + shapeSize

/-- All that a session refers to is in its heap, and its constants are there if there was memory. -/
structure Linked (s : Session) : Prop where
  heap : s.heap.Linked
  roots : s.roots.Over s.heap
  consts : ∀ name ∈ s.consts, s.HasConst name

variable {s s' : Session} {name : String} {id : ObjectId} {v : Value}

/-- A variable has its value from a scope or from the global object. -/
theorem exists_mem_values_of_readVariable? (hread : s.readVariable? name = some v)
    : ∃ id, v ∈ (s.heap.object id).values := by
  unfold readVariable? at hread
  split at hread
  . next id i _ =>
    obtain ⟨b, hb, rfl⟩ := Option.map_eq_some_iff.1 hread
    unfold Heap.binding? at hb
    split at hb
    . next parent bindings hcontent =>
      refine ⟨id, Heap.mem_values_of_content ?_⟩
      rw [hcontent]
      exact List.mem_map_of_mem (Array.mem_def.1 (Array.mem_of_getElem? hb))
    . cases hb
  . exact ⟨s.global, Heap.mem_values_of_property? hread⟩

theorem has_of_findBinding? {i : Nat} (hfound : s.findBinding? name = some (id, i)) : s.heap.Has id := by
  obtain ⟨scope, -, hscope⟩ := Option.bind_eq_some_iff.1 hfound
  have hindex := Heap.bindingIndex?_of_findBinding? hscope
  obtain ⟨parent, bindings, b, hcontent, -⟩ := Heap.binding?_of_bindingIndex? hindex
  exact Heap.has_of_content hcontent nofun

theorem Linked.has_scope (hs : s.Linked) (hid : s.scope? = some id) : s.heap.Has id := by
  obtain ⟨frame, hframe, hscope⟩ := Option.bind_eq_some_iff.1 hid
  apply hs.roots.scopes
  refine List.mem_filterMap.2 ⟨frame, ?_, hscope⟩
  exact Array.mem_def.1 (Array.mem_of_back? hframe)

end Session

namespace Discipline

variable {s s' : Session} {config : Config}

/-- Scripts get hold of objects of the heap only. -/
def linked : Discipline where
  Inv := Session.Linked
  Goes s s' := Heap.Steps s.heap s'.heap
  Admits := Heap.HasValue
  Binds := Heap.Has
  Code _ _ _ := True
  Throws s e := ∀ v text, e.fault.cause = .thrown v text → s.heap.HasValue v

theorem linked_names (hs : s.Linked) {op : Heap.Op} (hop : linked.Does s op) : op.Names s.heap := by
  have hscope : ∀ id ∈ s.scope?, s.heap.Has id := fun id hid => hs.has_scope hid
  cases hop with
  | array hvalues => exact ⟨fun v hv => hvalues v (Array.mem_def.2 hv), nofun⟩
  | object | error => exact ⟨nofun, nofun⟩
  | closure => exact ⟨nofun, hscope⟩
  | @callScope callee f parent script hcallee =>
    refine ⟨nofun, ?_⟩
    have hin : s.heap.Has callee := Heap.has_of_content hcallee nofun
    have hcontent := (hs.heap.object hin).content.scope
    change ∀ id ∈ (s.heap.content callee).scope?, s.heap.Has id at hcontent
    rw [hcallee] at hcontent
    exact hcontent
  | handlerScope hvalue =>
    refine ⟨?_, hscope⟩
    intro v hv
    cases List.mem_singleton.1 hv
    exact hvalue
  | property hobject hvalue | element hobject hvalue => exact ⟨Heap.hasValue_object.1 hobject, hvalue⟩
  | «variable» hvalue => exact ⟨hs.roots.global, hvalue⟩
  | binding hscope hvalue => exact ⟨hscope, hvalue⟩

/-- A change of the heap keeps what a session refers to, and its constants. -/
theorem linked_apply (hs : s.Linked) {op : Heap.Op} (hop : op.Names s.heap)
    : Heap.Steps s.heap (op.apply s.heap) ∧ (s.withHeap (op.apply s.heap)).Linked := by
  have hsteps := hs.heap.apply_steps hop
  have hpaid := Heap.paid_apply op s.heap
  have hgrows := Heap.Steps.grows hsteps
  refine ⟨hsteps, hs.heap.steps hsteps, ⟨?_, ?_, ?_⟩, ?_⟩
  . exact hgrows.has hs.roots.global
  . exact fun id hid => hgrows.has (hs.roots.scopes id hid)
  . exact fun v hv => hgrows.hasValue (hs.roots.microtasks v hv)
  . intro name hname
    rcases hs.consts name hname with hproperty | hfull
    . exact Or.inl (hs.heap.hasProperty_steps hsteps hs.roots.global hproperty)
    . right
      change (op.apply s.heap).limit < (op.apply s.heap).used + shapeSize
      rw [hpaid.limit]
      exact Nat.lt_of_lt_of_le hfull (Nat.add_le_add_right hpaid.grows _)

/-- A constant is set and noted, be it set successfully or not. -/
theorem linked_const (hs : s.Linked) {name : String} {v : Value} (hv : s.heap.HasValue v)
    : Heap.Steps s.heap ((Heap.Op.setProperty s.global name v).apply s.heap) ∧
        Session.Linked { s with
          heap := (Heap.Op.setProperty s.global name v).apply s.heap, consts := s.consts ++ [name] } := by
  have hnames : (Heap.Op.setProperty s.global name v).Names s.heap := ⟨hs.roots.global, hv⟩
  obtain ⟨hsteps, hs'⟩ := linked_apply hs hnames
  refine ⟨hsteps, hs'.heap, hs'.roots, ?_⟩
  intro name' hname'
  rcases List.mem_append.1 hname' with hname' | hname'
  . exact hs'.consts name' hname'
  . cases List.mem_singleton.1 hname'
    rcases hset : Heap.exec (Heap.setProperty s.global name v) s.heap with ⟨e | _, h⟩
    . right
      change (Heap.exec (Heap.setProperty s.global name v) s.heap).2.limit
        < (Heap.exec (Heap.setProperty s.global name v) s.heap).2.used + shapeSize
      rw [hset]
      exact (Heap.hasProperty_setProperty_error hset).2
    . left
      change (Heap.exec (Heap.setProperty s.global name v) s.heap).2.hasProperty s.global name = true
      rw [hset]
      exact hs.heap.hasProperty_setProperty hs.roots.global hset

theorem linked_change (hs : s.Linked) (hc : linked.Change s s')
    : Heap.Steps s.heap s'.heap ∧ s'.Linked := by
  cases hc with
  | store hop => exact linked_apply hs (linked_names hs hop)
  | const _ _ hv => exact linked_const hs hv
  | queue hv _ =>
    refine ⟨.refl, hs.heap, ⟨hs.roots.global, hs.roots.scopes, ?_⟩, hs.consts⟩
    intro v' hv'
    rcases List.mem_append.1 hv' with hv' | hv'
    . exact hs.roots.microtasks v' hv'
    . cases List.mem_singleton.1 hv'
      exact hv
  | @dequeue task tasks hnext =>
    refine ⟨.refl, hs.heap, ⟨hs.roots.global, hs.roots.scopes, ?_⟩, hs.consts⟩
    intro v hv
    apply hs.roots.microtasks v
    change v ∈ s.microtasks
    rw [hnext]
    exact List.mem_cons_of_mem _ hv
  | script | host =>
    exact ⟨.refl, hs.heap, ⟨hs.roots.global, hs.roots.scopes, hs.roots.microtasks⟩, hs.consts⟩

/-- The session in other frames, whose scopes are in the heap. -/
theorem linked_moved (hs : s.Linked) {stack : CallStack} {depth : Nat}
    (hm : linked.Enters config s stack depth)
    : (s.moved stack depth).Linked := by
  refine ⟨hs.heap, ⟨hs.roots.global, ?_, hs.roots.microtasks⟩, hs.consts⟩
  intro id hid
  obtain ⟨frame, hframe, hscope⟩ := List.mem_filterMap.1 hid
  have hold : ∀ frame ∈ s.stack.frames, ∀ id ∈ frame.scope, s.heap.Has id := by
    intro frame hframe id hid
    exact hs.roots.scopes id (List.mem_filterMap.2 ⟨frame, Array.mem_def.1 hframe, hid⟩)
  rw [← Array.mem_def] at hframe
  cases hm with
  | expression => exact hold frame hframe id hscope
  | @frame frame' _ _ hpush _ hnew _ =>
    unfold CallStack.push? at hpush
    split at hpush
    . cases hpush
    . cases hpush
      rcases Array.mem_push.1 hframe with hframe | rfl
      . exact hold frame hframe id hscope
      . exact hnew id hscope
  | @handler id' hid' =>
    unfold Session.moved CallStack.modifyCurrent at hframe
    dsimp only at hframe
    rcases Array.eq_or_eq_of_mem_modify hframe with hframe | ⟨frame', -, rfl⟩
    . exact hold frame hframe id hscope
    . cases hscope
      exact hid'

instance : linked.Lawful where
  goes_refl _ := .refl
  goes_trans hg hg' := hg.trans hg'
  admits_mono hl hv := (Heap.Steps.grows hl.goes).hasValue hv
  binds_mono hl hid := (Heap.Steps.grows hl.goes).has hid
  code_mono _ _ := trivial
  code_subset _ _ := trivial
  throws_mono hl he := fun v text hcause => (Heap.Steps.grows hl.goes).hasValue (he v text hcause)
  admits_plain hv := Heap.hasValue_of_object?_eq_none hv
  admits_variable hs hread := by
    obtain ⟨id, hmem⟩ := Session.exists_mem_values_of_readVariable? hread
    exact hs.heap.hasValue_of_mem id hmem
  admits_member hs _ key := hs.heap.hasValue_member _ key
  admits_element hs _ hcontent hv := hs.heap.hasValue_of_mem _ (Heap.mem_values_of_element hcontent hv)
  admits_task hs hv := hs.roots.microtasks _ hv
  binds_current hs hid := hs.has_scope hid
  binds_found _ hfound := Session.has_of_findBinding? hfound
  code_closure _ _ := trivial
  code_script _ _ _ := trivial
  change hs hm := linked_change hs hm.change
  made {s content id h} _ _ hexec := by
    have hid := Heap.has_allocated hexec
    unfold Made
    split
    . exact hid
    . exact Heap.hasValue_object.2 hid
  throws_failure {s cause loc} _ _ hcause := by
    rintro v text rfl
    cases hcause
  throws_value _ _ hv := by
    rintro v text ⟨⟩
    exact hv
  throws_malformed _ _ _ := nofun
  throws_enter _ _ _ _ _ _ he := by
    rw [he]
    exact nofun
  admits_caught he hcause := he _ _ hcause

instance : linked.LawfulUnder config where
  enter hs hm := linked_moved hs hm
  leave hs _ hl := by
    have hgrows := Heap.Steps.grows hl.goes
    have hroots := hl.inv.roots
    refine ⟨hl.goes, hl.inv.heap, ⟨hroots.global, ?_, hroots.microtasks⟩, hl.inv.consts⟩
    exact fun id hid => hgrows.has (hs.roots.scopes id hid)
  throws_leave _ _ _ he := he

end Discipline

namespace Session

variable {s : Session}

theorem linked_start {config : Config} (hstart : Session.start config = .ok s) : s.Linked := by
  have hallocate : ∀ {content : Content} {h : Heap}, h.Linked → h.LinkedContent content →
      Heap.Ensures Heap.Linked (fun id h' => h'.Has id ∧ Heap.Grows h h') (Heap.allocate content) h := by
    intro content h hl hcontent
    have hsteps := Heap.allocate_steps hcontent
    refine ⟨hl.steps hsteps, ?_⟩
    intro id hid
    exact ⟨Heap.has_allocated (Prod.ext hid rfl), Heap.Steps.grows hsteps⟩
  have hglobal : Heap.Ensures Heap.Linked (fun id h => h.Has id) Heap.newGlobal
      (.empty config.heapLimit) := by
    apply Heap.ensures_newGlobal (V := fun v h => h.HasValue v)
    . have hcontent : (Heap.empty config.heapLimit).LinkedContent .global := ⟨nofun, nofun⟩
      exact (hallocate (Heap.linked_empty _) hcontent).mono fun _ _ _ hid => hid.1
    . intro id h hl hid builtin
      have hcontent : h.LinkedContent (.native builtin) := ⟨nofun, nofun⟩
      apply (hallocate hl hcontent).mono
      intro f h' _ hf
      exact ⟨hf.2.has hid, Heap.hasValue_object.2 hf.1⟩
    . intro id h hl hid key v hv
      have hsteps := Heap.setProperty_steps (hl.object hid).shape hv key
      exact ⟨hl.steps hsteps, fun _ _ => (Heap.Steps.grows hsteps).has hid⟩
    . exact fun _ _ => Heap.hasValue_of_object?_eq_none rfl
  obtain ⟨global, hok, rfl⟩ := start_eq hstart
  exact ⟨hglobal.1, ⟨hglobal.2 global hok, nofun, nofun⟩, nofun⟩

/-- All that a session of a host refers to is in its heap. -/
theorem Reachable.linked (hr : s.Reachable) : s.Linked :=
  (hr.idle fun _ _ => linked_start : s.Idle .linked).inv

end Session
end ScriptHost
