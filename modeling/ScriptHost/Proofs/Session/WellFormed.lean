import ScriptHost.Proofs.Heap.Properties
import ScriptHost.Proofs.Heap.WellFormed
import ScriptHost.Proofs.Session.Linked
import ScriptHost.Proofs.Session.Moments

/-!
This module contains that the sessions of a host are well-formed at all moments. Scripts never hold the
global object or a scope, and what they do changes neither the nature of an object nor a global constant.
-/

namespace ScriptHost

namespace Session

variable {s s' s'' : Session}

structure WellFormed (s : Session) : Prop where
  linked : s.Linked
  heap : s.heap.WellFormed
  closures : s.heap.Closures fun _ script => script.index < s.scripts.size
  global : s.heap.content s.global = .global
  microtasks : ∀ task ∈ s.microtasks, s.heap.HasPublic task ∧ (s.callable? task).isSome
  scopes : ∀ frame ∈ s.stack.frames, ∀ id ∈ frame.scope, s.heap.HasScope id
  frameScripts : ∀ frame ∈ s.stack.frames, frame.script.index < s.scripts.size

/-- The name is that of a global constant, which has a value. -/
structure Fixed (s : Session) (name : String) (v : Value) : Prop where
  const : name ∈ s.consts
  property : s.heap.property? s.global name = some v

/-- All objects keep their nature, and all global constants their values. -/
structure Keeps (s s' : Session) : Prop where
  heap : s.heap.Retains s'.heap
  global : s'.global = s.global
  scripts : s.scripts.toList <+: s'.scripts.toList
  fixed : ∀ {name v}, s.Fixed name v → s'.Fixed name v

theorem keeps_refl (s : Session) : s.Keeps s :=
  ⟨Heap.retains_refl _, rfl, List.prefix_rfl, id⟩

theorem Keeps.trans (hk : s.Keeps s') (hk' : s'.Keeps s'') : s.Keeps s'' where
  heap := hk.heap.trans hk'.heap
  global := hk'.global.trans hk.global
  scripts := hk.scripts.trans hk'.scripts
  fixed hx := hk'.fixed (hk.fixed hx)

theorem isSome_callable? {task : Value}
    : (s.callable? task).isSome = true ↔ ∃ id, task = .object id ∧ s.heap.isCallable id = true := by
  unfold callable?
  cases task with
  | object id =>
    cases hcallable : s.heap.isCallable id <;> simp [Value.object?, Option.filter, hcallable]
  | _ => simp [Value.object?]

namespace WellFormed

variable (hs : s.WellFormed)
include hs

theorem current {id : ScriptId} (hid : s.currentScript? = some id) : id.index < s.scripts.size := by
  obtain ⟨frame, hframe, rfl⟩ := Option.map_eq_some_iff.1 hid
  exact hs.frameScripts frame (Array.mem_of_back? hframe)

theorem scope {id : ObjectId} (hid : s.scope? = some id) : s.heap.HasScope id := by
  obtain ⟨frame, hframe, hscope⟩ := Option.bind_eq_some_iff.1 hid
  exact hs.scopes frame (Array.mem_of_back? hframe) id hscope

theorem hasPublic_member (id : ObjectId) (key : String) : s.heap.HasPublic (s.heap.member id key) := by
  rcases s.heap.member_cases id key with hplain | hmem
  . exact Heap.hasPublic_of_object?_eq_none hplain
  . exact hs.heap.values id _ hmem

end WellFormed

/-- A change of the heap only, of which the rest of the session takes no notice. -/
theorem WellFormed.withHeap (hs : s.WellFormed) {h : Heap} (hr : s.heap.Retains h)
    (hlinked : (s.withHeap h).Linked) (hwellFormed : h.WellFormed)
    (hclosures : h.Closures fun _ script => script.index < s.scripts.size)
    : (s.withHeap h).WellFormed := by
  refine ⟨hlinked, hwellFormed, hclosures, ?_, ?_, ?_, hs.frameScripts⟩
  . exact hr.content_global hs.linked.roots.global hs.global
  . intro task htask
    obtain ⟨hpublic, hcallable⟩ := hs.microtasks task htask
    refine ⟨hr.hasPublic hpublic, ?_⟩
    obtain ⟨id, rfl, hid⟩ := isSome_callable?.1 hcallable
    refine isSome_callable?.2 ⟨id, rfl, ?_⟩
    exact (hr.isCallable (Heap.hasPublic_object.1 hpublic).1).trans hid
  . exact fun frame hframe id hid => hr.hasScope (hs.scopes frame hframe id hid)

/-- The session in other frames, which are as well-formed as those that were there. -/
theorem WellFormed.moved (hs : s.WellFormed) {stack : CallStack} (depth : Nat)
    (hlinked : (s.moved stack depth).Linked)
    (hframes : ∀ frame ∈ stack.frames, frame ∈ s.stack.frames ∨
      (∀ id ∈ frame.scope, s.heap.HasScope id) ∧ frame.script.index < s.scripts.size)
    : (s.moved stack depth).WellFormed := by
  refine ⟨hlinked, hs.heap, hs.closures, hs.global, hs.microtasks, ?_, ?_⟩
  . intro frame hframe
    rcases hframes frame hframe with hold | hnew
    . exact hs.scopes frame hold
    . exact hnew.1
  . intro frame hframe
    rcases hframes frame hframe with hold | hnew
    . exact hs.frameScripts frame hold
    . exact hnew.2

end Session

namespace Discipline

variable {s s' : Session} {config : Config} {op : Heap.Op}

/-- Scripts hold public objects only, and have scopes around their code. Code runs in a known script. -/
def encapsulated : Discipline where
  Inv := Session.WellFormed
  Goes := Session.Keeps
  Admits := Heap.HasPublic
  Binds := Heap.HasScope
  Code scripts id? _ := ∃ id, id? = some id ∧ id.index < scripts.size
  Throws s e := ∀ v text, e.fault.cause = .thrown v text → s.heap.HasPublic v

theorem encapsulated_allows (s : Session) : encapsulated.Allows linked s :=
  ⟨Heap.HasPublic.hasValue, Heap.HasScope.has, fun _ => trivial⟩

theorem proper_of_does (hs : s.WellFormed) (hop : encapsulated.Does s op) : op.Proper s.heap := by
  have hscope : ∀ id ∈ s.scope?, s.heap.HasScope id := fun id hid => hs.scope hid
  have hone : ∀ {v}, s.heap.HasPublic v → ∀ v' ∈ [v], s.heap.HasPublic v' := by
    rintro v hv v' hv'
    cases List.mem_singleton.1 hv'
    exact hv
  cases hop with
  | array hvalues => exact ⟨fun v hv => hvalues v (Array.mem_def.2 hv), nofun⟩
  | object | error => exact ⟨nofun, nofun⟩
  | closure => exact ⟨nofun, hscope⟩
  | @callScope callee f parent script hcallee =>
    refine ⟨nofun, ?_⟩
    intro outer houter
    apply (hs.heap.scopes callee outer _).1
    rw [hcallee]
    exact houter
  | handlerScope hvalue => exact ⟨hone hvalue, hscope⟩
  | property _ hvalue | element _ hvalue | «variable» hvalue | binding _ hvalue =>
    exact ⟨hone hvalue, nofun⟩

theorem closures_apply (hs : s.WellFormed) (hop : encapsulated.Does s op)
    : (op.apply s.heap).Closures fun _ script => script.index < s.scripts.size := by
  cases hop with
  | array | object | error | callScope | handlerScope =>
    apply Heap.keeps_allocate _ s.heap hs.closures
    intro f scope script hcontent
    cases hcontent
  | closure hcode =>
    obtain ⟨id, hid, hlt⟩ := hcode
    apply Heap.keeps_allocate _ s.heap hs.closures
    intro f scope script hcontent
    cases hcontent
    rw [hid]
    exact hlt
  | property | «variable» => exact Heap.keeps_setProperty _ _ _ s.heap hs.closures
  | element => exact Heap.keeps_setElement _ _ _ s.heap hs.closures
  | binding => exact Heap.keeps_declare _ _ _ _ s.heap hs.closures

/-- No operation sets a global constant that has a value. -/
theorem ne_setProperty_of_does (hs : s.WellFormed) (hop : encapsulated.Does s op) {name : String}
    {v : Value} (hx : s.Fixed name v) (v' : Value)
    : op ≠ .setProperty s.global name v' := by
  rintro rfl
  cases hop with
  | property hobject =>
    -- the global object is not for scripts
    have hprivate := (Heap.hasPublic_object.1 hobject).2
    rw [hs.global] at hprivate
    cases hprivate
  | «variable» _ hfree =>
    rcases hfree with hfree | hfree
    . exact hfree hx.const
    . rw [Heap.hasProperty_of_property? hx.property] at hfree
      cases hfree

theorem encapsulated_store (hs : s.WellFormed) (hop : encapsulated.Does s op)
    : s.Keeps (s.withHeap (op.apply s.heap)) ∧ (s.withHeap (op.apply s.heap)).WellFormed := by
  have hr := Heap.retains_apply op s.heap
  have hnames := linked_names hs.linked ((encapsulated_allows s).does hop)
  have hlinked := (linked_apply hs.linked hnames).2
  refine ⟨⟨hr, rfl, List.prefix_rfl, ?_⟩, ?_⟩
  . intro name v hx
    refine ⟨hx.const, ?_⟩
    have hkept := hs.linked.heap.property?_apply hnames hs.linked.roots.global
      (ne_setProperty_of_does hs hop hx)
    exact hkept.trans hx.property
  . exact hs.withHeap hr hlinked (hs.heap.apply (proper_of_does hs hop)) (closures_apply hs hop)

theorem encapsulated_change (hs : s.WellFormed) (hc : encapsulated.Change s s')
    : s.Keeps s' ∧ s'.WellFormed := by
  have hlinked := (linked_change hs.linked ((encapsulated_allows s).change hc)).2
  cases hc with
  | store hop => exact encapsulated_store hs hop
  | @const name v hscope hfree hvalue =>
    obtain ⟨hk, hw⟩ := encapsulated_store hs (.variable hvalue (Or.inl hfree))
    refine ⟨⟨hk.heap, rfl, List.prefix_rfl, ?_⟩, ?_⟩
    . intro name' v' hx
      exact ⟨List.mem_append_left _ hx.const, (hk.fixed hx).property⟩
    . exact ⟨hlinked, hw.heap, hw.closures, hw.global, hw.microtasks, hw.scopes, hw.frameScripts⟩
  | @queue task hvalue hcallable =>
    refine ⟨⟨Heap.retains_refl _, rfl, List.prefix_rfl, fun hx => ⟨hx.const, hx.property⟩⟩, ?_⟩
    refine ⟨hlinked, hs.heap, hs.closures, hs.global, ?_, hs.scopes, hs.frameScripts⟩
    intro task' htask'
    rcases List.mem_append.1 htask' with htask' | htask'
    . exact hs.microtasks task' htask'
    . cases List.mem_singleton.1 htask'
      exact ⟨hvalue, hcallable⟩
  | @dequeue task tasks hnext =>
    refine ⟨⟨Heap.retains_refl _, rfl, List.prefix_rfl, fun hx => ⟨hx.const, hx.property⟩⟩, ?_⟩
    refine ⟨hlinked, hs.heap, hs.closures, hs.global, ?_, hs.scopes, hs.frameScripts⟩
    intro task' htask'
    apply hs.microtasks
    rw [hnext]
    exact List.mem_cons_of_mem _ htask'
  | script script =>
    have hsize : s.scripts.size < (s.scripts.push script).size := by simp
    refine ⟨⟨Heap.retains_refl _, rfl, by simp, fun hx => ⟨hx.const, hx.property⟩⟩, ?_⟩
    refine ⟨hlinked, hs.heap, ?_, hs.global, hs.microtasks, hs.scopes, ?_⟩
    . exact fun o ho f scope id hclosure => (hs.closures o ho f scope id hclosure).trans hsize
    . exact fun frame hframe => (hs.frameScripts frame hframe).trans hsize
  | host =>
    refine ⟨⟨Heap.retains_refl _, rfl, List.prefix_rfl, fun hx => ⟨hx.const, hx.property⟩⟩, ?_⟩
    exact ⟨hlinked, hs.heap, hs.closures, hs.global, hs.microtasks, hs.scopes, hs.frameScripts⟩

theorem encapsulated_moved (hs : s.WellFormed) {stack : CallStack} {depth : Nat}
    (hm : encapsulated.Enters config s stack depth)
    : (s.moved stack depth).WellFormed := by
  apply hs.moved depth (linked_moved hs.linked ((encapsulated_allows s).enters hm))
  intro frame hframe
  cases hm with
  | expression => exact Or.inl hframe
  | @frame frame' _ _ hpush hcode hnew _ =>
    unfold CallStack.push? at hpush
    split at hpush
    . cases hpush
    . cases hpush
      rcases Array.mem_push.1 hframe with hframe | rfl
      . exact Or.inl hframe
      . obtain ⟨id, hid, hlt⟩ := hcode
        cases hid
        exact Or.inr ⟨hnew, hlt⟩
  | @handler id' hid' =>
    unfold CallStack.modifyCurrent at hframe
    dsimp only at hframe
    rcases Array.eq_or_eq_of_mem_modify hframe with hframe | ⟨frame', hframe', rfl⟩
    . exact Or.inl hframe
    . right
      refine ⟨?_, hs.frameScripts frame' (Array.mem_of_getElem? hframe')⟩
      intro id hid
      cases hid
      exact hid'

instance : encapsulated.Lawful where
  goes_refl _ := Session.keeps_refl _
  goes_trans hg hg' := hg.trans hg'
  admits_mono hl hv := hl.goes.heap.hasPublic hv
  binds_mono hl hid := hl.goes.heap.hasScope hid
  code_mono hscripts hcode := by
    obtain ⟨id, hid, hlt⟩ := hcode
    exact ⟨id, hid, hlt.trans_le hscripts.length_le⟩
  code_subset _ hcode := hcode
  throws_mono hl he := fun v text hcause => hl.goes.heap.hasPublic (he v text hcause)
  admits_plain hv := Heap.hasPublic_of_object?_eq_none hv
  admits_variable hs hread := by
    obtain ⟨id, hmem⟩ := Session.exists_mem_values_of_readVariable? hread
    exact hs.heap.values id _ hmem
  admits_member hs _ key := hs.hasPublic_member _ key
  admits_element hs _ hcontent hv := hs.heap.values _ _ (Heap.mem_values_of_element hcontent hv)
  admits_task hs hv := (hs.microtasks _ hv).1
  binds_current hs hid := hs.scope hid
  binds_found {s name id i} _ hfound := by
    obtain ⟨scope, -, hscope⟩ := Option.bind_eq_some_iff.1 hfound
    exact Heap.hasScope_of_bindingIndex? (Heap.bindingIndex?_of_findBinding? hscope)
  code_closure hs hcontent := ⟨_, rfl, hs.closures.of_content hcontent⟩
  code_script {s id script stmts} _ hscript _ :=
    ⟨id, rfl, (Array.getElem?_eq_some_iff.1 hscript).1⟩
  change hs hm := encapsulated_change hs hm.change
  made {s content id h} _ hop hexec := by
    have hid := Heap.has_allocated hexec
    have hcontent := Heap.content_allocated hexec
    cases hop with
    | array | object | error | closure => exact Heap.hasPublic_object.2 ⟨hid, by rw [hcontent]; rfl⟩
    | callScope | handlerScope =>
      change (h.content id).isScope = true
      rw [hcontent]
      rfl
  throws_failure {s cause loc} _ _ hcause := by
    rintro v text rfl
    cases hcause
  throws_value _ _ hv := by
    rintro v text ⟨⟩
    exact hv
  throws_malformed _ _ _ := nofun
  throws_enter _ _ _ _ _ _ he := by
    rw [he]
    exact nofun
  admits_caught he hcause := he _ _ hcause

instance : encapsulated.LawfulUnder config where
  enter hs hm := encapsulated_moved hs hm
  leave {s s' stack depth} hs hm hl := by
    have hk := hl.goes
    have hlinked := hl.inv.linked
    have hscopes : ∀ frame ∈ s.stack.frames, ∀ id ∈ frame.scope, s'.heap.HasScope id :=
      fun frame hframe id hid => hk.heap.hasScope (hs.scopes frame hframe id hid)
    refine ⟨⟨hk.heap, hk.global, hk.scripts, ?_⟩, ?_, hl.inv.heap, hl.inv.closures, hl.inv.global,
      hl.inv.microtasks, hscopes, ?_⟩
    . intro name v hx
      have hx' := hk.fixed ⟨hx.const, hx.property⟩
      exact ⟨hx'.const, hx'.property⟩
    . refine ⟨hlinked.heap, ⟨hlinked.roots.global, ?_, hlinked.roots.microtasks⟩, hlinked.consts⟩
      exact fun id hid => hk.heap.has (hs.linked.roots.scopes id hid)
    . exact fun frame hframe => (hs.frameScripts frame hframe).trans_le hk.scripts.length_le
  throws_leave _ _ _ he := he

end Discipline

namespace Session

variable {s : Session}

theorem wellFormed_newGlobal (limit : Nat)
    : Heap.Ensures Heap.WellFormed (fun id h => h.Has id ∧ h.content id = .global) Heap.newGlobal
        (.empty limit) := by
  have happly : ∀ (op : Heap.Op) {h : Heap}, h.WellFormed → (∀ v ∈ op.values, h.HasPublic v) →
      op.scope? = none → (op.apply h).WellFormed := by
    intro op h hw hvalues hscope
    apply hw.apply
    exact ⟨hvalues, by simp [hscope]⟩
  have hnew : ∀ {content : Content} {h : Heap} {id : ObjectId},
      (Heap.exec (Heap.allocate content) h).1 = .ok id →
        Heap.Has ((Heap.Op.allocate content).apply h) id ∧
        Heap.content ((Heap.Op.allocate content).apply h) id = content := by
    intro content h id hok
    have hallocate : Heap.exec (Heap.allocate content) h
        = (.ok id, (Heap.exec (Heap.allocate content) h).2) := Prod.ext hok rfl
    exact ⟨Heap.has_allocated hallocate, Heap.content_allocated hallocate⟩
  apply Heap.ensures_newGlobal (V := fun v h => h.HasPublic v)
  . refine ⟨happly (.allocate .global) (Heap.wellFormed_empty limit) nofun rfl, ?_⟩
    exact fun id hid => hnew hid
  . intro id h hw hid builtin
    have hr := Heap.retains_apply (.allocate (.native builtin)) h
    refine ⟨happly (.allocate (.native builtin)) hw nofun rfl, ?_⟩
    intro f hf
    obtain ⟨hin, hcontent⟩ := hnew hf
    refine ⟨⟨hr.has hid.1, hr.content_global hid.1 hid.2⟩, ?_⟩
    refine Heap.hasPublic_object.2 ⟨hin, ?_⟩
    exact congrArg Content.isPrivate hcontent
  . intro id h hw hid key v hv
    have hr := Heap.retains_apply (.setProperty id key v) h
    refine ⟨happly (.setProperty id key v) hw ?_ rfl, ?_⟩
    . intro v' hv'
      cases List.mem_singleton.1 hv'
      exact hv
    . exact fun _ _ => ⟨hr.has hid.1, hr.content_global hid.1 hid.2⟩
  . exact fun _ _ => Heap.hasPublic_of_object?_eq_none rfl

theorem wellFormed_start {config : Config} (hstart : Session.start config = .ok s) : s.WellFormed := by
  have hlinked := linked_start hstart
  have hclosures : s.heap.Closures fun _ script => script.index < 0 := closures_start hstart
  obtain ⟨hw, hglobal⟩ := wellFormed_newGlobal config.heapLimit
  obtain ⟨global, hok, rfl⟩ := start_eq hstart
  exact ⟨hlinked, hw, hclosures, (hglobal global hok).2, nofun, nofun, nofun⟩

theorem Reachable.idle_encapsulated (hr : s.Reachable) : s.Idle .encapsulated :=
  hr.idle fun _ _ => wellFormed_start

theorem Visited.wellFormed (hv : s.Visited) : s.WellFormed :=
  hv.inv (D := .encapsulated) fun _ _ => wellFormed_start

end Session
end ScriptHost
