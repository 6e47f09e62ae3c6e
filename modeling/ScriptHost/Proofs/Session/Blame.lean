import ScriptHost.Proofs.Discipline.Stmt
import ScriptHost.Proofs.Heap.Closures
import ScriptHost.Proofs.Session.Reachable

/-!
This module contains which script an exception blames. It blames the running script for a location that
occurs in it, but for one case: if there is no memory for what a handler needs before its first statement,
the running script is blamed for the location of the exception that was to be handled.
-/

namespace ScriptHost

namespace Session

variable {s s' : Session} {e : Exception} {ls ls' : List Location}

/-- A script is registered, and the locations occur in it. -/
def Owns (s : Session) (id : ScriptId) (ls : List Location) : Prop :=
  ∃ script, s.script? id = some script ∧ ls ⊆ script.locations

instance (s : Session) (id : ScriptId) (ls : List Location) : Decidable (s.Owns id ls) :=
  inferInstanceAs (Decidable (∃ script, s.script? id = some script ∧ ls ⊆ script.locations))

/-- Every closure occurs in the script that it belongs to. -/
def Valid (s : Session) : Prop :=
  s.heap.Closures fun f id => s.Owns id f.locations

/-- The place of an exception, if it has one, occurs in the script that the exception names. -/
def Placed (s : Session) (e : Exception) : Prop :=
  ∀ site, e.site = some site → s.Owns site.script [site.loc]

instance (s : Session) (e : Exception) : Decidable (s.Placed e) :=
  inferInstanceAs (Decidable (∀ site, e.site = some site → s.Owns site.script [site.loc]))

/--
The place of an exception does not occur in the script that the exception names, as it comes from the
entry to a handler, and is the place of the exception that was caught. It occurs in another script.
-/
def Displaced (s : Session) (e : Exception) : Prop :=
  ∃ id script other handler caught env s₀ s₁,
    e.site = some ⟨id, caught.fault.loc⟩ ∧
    s.script? id = some script ∧ caught.fault.loc ∉ script.locations ∧
    other ∈ s.scripts ∧ caught.fault.loc ∈ other.locations ∧
    s₀.scripts.toList <+: s.scripts.toList ∧
    Eval.enter handler caught env s₀ = .thrown e s₁

/--
What is known about an exception that a run throws: it has no place if no script is running, or its place
occurs in a registered script that it names, or it comes from the entry to a handler.
-/
inductive Blamed (s : Session) (e : Exception) : Prop where
  | nowhere (hscript : s.currentScript? = none) (hsite : e.site = none)
  | placed (id : ScriptId) (hsite : e.site = some ⟨id, e.fault.loc⟩) (howns : s.Owns id [e.fault.loc])
  | displaced (hloc : ∀ site, e.site = some site → site.loc = e.fault.loc) (hd : s.Displaced e)

theorem script_of_append {scripts scripts' : Array Script}
    (hscripts : scripts.toList <+: scripts'.toList) {i : Nat} {script : Script}
    (hscript : scripts[i]? = some script)
    : scripts'[i]? = some script := by
  rw [← Array.getElem?_toList] at *
  obtain ⟨hi, rfl⟩ := List.getElem?_eq_some_iff.1 hscript
  exact List.prefix_iff_getElem?.1 hscripts _ hi

theorem Owns.of_append (hscripts : s.scripts.toList <+: s'.scripts.toList) {id : ScriptId}
    (ho : s.Owns id ls)
    : s'.Owns id ls := by
  obtain ⟨script, hscript, hsub⟩ := ho
  exact ⟨script, script_of_append hscripts hscript, hsub⟩

theorem Displaced.of_append (hscripts : s.scripts.toList <+: s'.scripts.toList)
    (hd : s.Displaced e)
    : s'.Displaced e := by
  obtain ⟨id, script, other, handler, caught, env, s₀, s₁, hsite, hscript, hforeign, hother, hloc,
    happend, henter⟩ := hd
  refine ⟨id, script, other, handler, caught, env, s₀, s₁, hsite, script_of_append hscripts hscript,
    hforeign, ?_, hloc, happend.trans hscripts, henter⟩
  exact Array.mem_def.2 (hscripts.subset (Array.mem_def.1 hother))

/-- An exception stays blamed if the same script goes on, or if there was one that does not. -/
theorem Blamed.of_append (hb : s.Blamed e) (hscripts : s.scripts.toList <+: s'.scripts.toList)
    (hcurrent : s.currentScript? = none → s'.currentScript? = none)
    : s'.Blamed e := by
  cases hb with
  | nowhere hscript hsite => exact .nowhere (hcurrent hscript) hsite
  | placed id hsite howns => exact .placed id hsite (howns.of_append hscripts)
  | displaced hloc hd => exact .displaced hloc (hd.of_append hscripts)

theorem Blamed.placed_or_displaced (hb : s.Blamed e) : s.Placed e ∨ s.Displaced e := by
  cases hb with
  | nowhere _ hsite =>
    left
    intro site hsite'
    rw [hsite] at hsite'
    cases hsite'
  | placed id hsite howns =>
    left
    intro site hsite'
    rw [hsite] at hsite'
    cases hsite'
    exact howns
  | displaced _ hd => exact Or.inr hd

theorem blamed_of_site (hsite : e.site = s.site? e.fault.loc)
    (hc : ∀ id, s.currentScript? = some id → s.Owns id [e.fault.loc])
    : s.Blamed e := by
  cases hid : s.currentScript? with
  | none =>
    apply Blamed.nowhere hid
    rw [hsite, site?, hid]
    rfl
  | some id =>
    apply Blamed.placed id _ (hc id hid)
    rw [hsite, site?, hid]
    rfl

theorem Blamed.mem_locations (hb : s.Blamed e) {id : ScriptId} (hid : s.currentScript? = some id)
    : ∃ other ∈ s.scripts, e.fault.loc ∈ other.locations := by
  cases hb with
  | nowhere hscript =>
    rw [hscript] at hid
    cases hid
  | placed id _ howns =>
    obtain ⟨script, hscript, hsub⟩ := howns
    exact ⟨script, Array.mem_of_getElem? hscript, hsub List.mem_cons_self⟩
  | displaced hloc hd =>
    obtain ⟨id, -, other, -, caught, -, -, -, hsite, -, -, hother, hmem, -⟩ := hd
    rw [← hloc _ hsite]
    exact ⟨other, hother, hmem⟩

/-- An exception that keeps a handler from being entered is the one case of a misplaced exception. -/
theorem Blamed.enter {id : ScriptId} {script : Script} {handler : Handler} {caught e : Exception}
    {env : Env} {h : Heap} {cause : Cause} (hid : s.currentScript? = some id)
    (hscript : s.script? id = some script) (hb : s.Blamed caught)
    (henter : Eval.enter handler caught env s = .thrown e s') (hs' : s' = s.withHeap h)
    (he : e = s'.exception cause caught.fault.loc)
    : s'.Blamed e := by
  obtain ⟨other, hother, hloc⟩ := hb.mem_locations hid
  have hsite : e.site = some ⟨id, caught.fault.loc⟩ := by
    have hid' : s'.currentScript? = some id := by
      rw [hs']
      exact hid
    rw [he, exception, site?, hid']
    rfl
  have hfault : e.fault.loc = caught.fault.loc := by
    rw [he]
    rfl
  -- the location may have come from a called function of another script
  by_cases hmem : caught.fault.loc ∈ script.locations
  . apply Blamed.placed id
    . rw [hfault, hsite]
    . refine ⟨script, ?_, by simpa [hfault] using hmem⟩
      rw [hs']
      exact hscript
  . apply Blamed.displaced
    . intro site hsite'
      rw [hsite] at hsite'
      cases hsite'
      exact hfault.symm
    . refine ⟨id, script, other, handler, caught, env, s, s', hsite, ?_, hmem, ?_, hloc, ?_, henter⟩
      . rw [hs']
        exact hscript
      . rw [hs']
        exact hother
      . exact ⟨[], by rw [hs', List.append_nil]; rfl⟩

theorem valid_start {config : Config} (hstart : Session.start config = .ok s) : s.Valid :=
  closures_start hstart

end Session

namespace Discipline

/-- Code runs in the script in which it occurs, and exceptions are blamed on it. -/
def blame : Discipline where
  Inv := Session.Valid
  Goes _ _ := True
  Admits _ _ := True
  Binds _ _ := True
  Code scripts id? ls :=
    ∃ id script, id? = some id ∧ scripts[id.index]? = some script ∧ ls ⊆ script.locations
  Throws := Session.Blamed

variable {s s' : Session} {ls : List Location} {loc : Location}

theorem blame_runs (hr : blame.Runs s ls)
    : ∃ id script, s.currentScript? = some id ∧ s.script? id = some script ∧ ls ⊆ script.locations :=
  hr

theorem blame_owns {id : ScriptId} (hcode : blame.Code s.scripts (some id) ls) : s.Owns id ls := by
  obtain ⟨_, script, ⟨⟩, hscript, hsub⟩ := hcode
  exact ⟨script, hscript, hsub⟩

theorem blame_covers (hc : blame.Covers s loc) {id : ScriptId} (hid : s.currentScript? = some id)
    : s.Owns id [loc] :=
  blame_owns (hc id hid)

theorem blame_code {id : ScriptId} (ho : s.Owns id ls) : blame.Code s.scripts (some id) ls := by
  obtain ⟨script, hscript, hsub⟩ := ho
  exact ⟨id, script, rfl, hscript, hsub⟩

/-- The closures that scripts make occur in the script that is running. -/
theorem valid_store {op : Heap.Op} (hv : s.Valid) (hop : blame.Does s op)
    : (s.withHeap (op.apply s.heap)).Valid := by
  cases hop with
  | array | object | error | callScope | handlerScope =>
    apply Heap.keeps_allocate _ s.heap hv
    intro f scope script hcontent
    cases hcontent
  | closure hcode =>
    obtain ⟨id, script, hid, hscript, hsub⟩ := blame_runs hcode
    apply Heap.keeps_allocate _ s.heap hv
    intro f scope script' hcontent
    cases hcontent
    rw [hid]
    exact ⟨script, hscript, hsub⟩
  | property | «variable» => exact Heap.keeps_setProperty _ _ _ s.heap hv
  | element => exact Heap.keeps_setElement _ _ _ s.heap hv
  | binding => exact Heap.keeps_declare _ _ _ _ s.heap hv

theorem valid_change (hv : s.Valid) (hc : blame.Change s s') : s'.Valid := by
  cases hc with
  | store hop => exact valid_store hv hop
  | const => exact Heap.keeps_setProperty _ _ _ s.heap hv
  | queue | dequeue | host => exact hv
  | script script =>
    intro o ho f scope id hclosure
    exact (hv o ho f scope id hclosure).of_append (by simp)

instance : blame.Lawful where
  goes_refl _ := trivial
  goes_trans _ _ := trivial
  admits_mono _ _ := trivial
  binds_mono _ _ := trivial
  code_mono hscripts hcode := by
    obtain ⟨id, script, rfl, hscript, hsub⟩ := hcode
    exact ⟨id, script, rfl, Session.script_of_append hscripts hscript, hsub⟩
  code_subset hsub hcode := by
    obtain ⟨id, script, rfl, hscript, hsub'⟩ := hcode
    exact ⟨id, script, rfl, hscript, List.Subset.trans hsub hsub'⟩
  throws_mono hl hb := hb.of_append hl.scripts fun hid => by rw [hl.currentScript?, hid]
  admits_plain _ := trivial
  admits_variable _ _ := trivial
  admits_member _ _ _ := trivial
  admits_element _ _ _ _ := trivial
  admits_task _ _ := trivial
  binds_current _ _ := trivial
  binds_found _ _ := trivial
  code_closure hv hcontent := blame_code (Heap.Closures.of_content hv hcontent)
  code_script {s id script stmts} _ hscript hparse := by
    refine ⟨id, script, rfl, hscript, ?_⟩
    simp [Script.locations, hparse]
  change hv hm := ⟨trivial, valid_change hv hm.change⟩
  made _ _ _ := by
    unfold Made
    split <;> trivial
  throws_failure _ hc _ := Session.blamed_of_site rfl fun _ => blame_covers hc
  throws_value _ hc _ := Session.blamed_of_site rfl fun _ => blame_covers hc
  throws_malformed {s id script e} _ hscript hparse := by
    apply Session.Blamed.placed id rfl
    refine ⟨script, hscript, ?_⟩
    simp [Script.locations, hparse]
  throws_enter _ hr hb henter hs' _ he := by
    obtain ⟨id, script, hid, hscript, -⟩ := blame_runs hr
    exact hb.enter hid hscript henter hs' he
  admits_caught _ _ := trivial

instance (config : Config) : blame.LawfulUnder config where
  enter hv _ := hv
  leave _ _ hl := ⟨trivial, hl.inv⟩
  throws_leave {s s' stack depth e} _ hm hl hb := by
    refine Session.Blamed.of_append hb List.prefix_rfl ?_
    intro hid
    rw [hl.currentScript?] at hid
    cases hm with
    | expression =>
      exact hid
    | frame hpush =>
      -- an exception of a call is never one outside of all scripts
      unfold Session.currentScript? Session.moved at hid
      rw [CallStack.current?_push? hpush] at hid
      cases hid
    | handler =>
      exact (CallStack.script_modifyCurrent ..).symm.trans hid

end Discipline

end ScriptHost
