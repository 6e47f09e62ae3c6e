import ScriptHost.Proofs.Heap.Ensures
import ScriptHost.Proofs.Heap.Retained
import ScriptHost.Proofs.Heap.Run
import ScriptHost.Proofs.Session.Run
import ScriptHost.Proofs.Syntax.Locations

/-!
This module contains disciplines. A discipline is what is kept by a session in all that scripts can do
to it: an invariant, how sessions go on, and which values, scopes, code and exceptions there are. It is
lawful if every single change that scripts make respects it. Then so does every run.
-/

namespace ScriptHost

namespace Session

def withHeap (s : Session) (h : Heap) : Session :=
  { s with heap := h }

/-- The session with other frames and another number of expressions under evaluation. -/
def moved (s : Session) (stack : CallStack) (depth : Nat) : Session :=
  { s with stack := stack, expressionDepth := depth }

/-- What a computation leaves behind: the frames that were there, and all scripts and maybe more. -/
structure Resumes (s s' : Session) : Prop where
  stack : s'.stack = s.stack
  depth : s'.expressionDepth = s.expressionDepth
  global : s'.global = s.global
  scripts : s.scripts.toList <+: s'.scripts.toList

/-- No array gets a property at the position of an element. The global object is no array. -/
def Fits (s : Session) (op : Heap.Op) : Prop :=
  ∀ id key v, op = .setProperty id key v → id ≠ s.global → s.heap.isArray id → arrayIndex? key = none

theorem fits_global (s : Session) (key : String) (v : Value) : s.Fits (.setProperty s.global key v) := by
  rintro _ _ _ ⟨⟩ hne
  exact absurd rfl hne

theorem fits_property {s : Session} {id : ObjectId} {key : String}
    (h : s.heap.isArray id → arrayIndex? key = none) (v : Value) : s.Fits (.setProperty id key v) := by
  rintro _ _ _ ⟨⟩ - harray
  exact h harray

end Session

structure Discipline where
  Inv : Session → Prop
  /-- A session goes on to another one. -/
  Goes : Session → Session → Prop
  /-- The values that scripts get hold of. -/
  Admits : Heap → Value → Prop
  /-- The objects that hold the variables of calls and of handlers. -/
  Binds : Heap → ObjectId → Prop
  /-- The code that may run in a script, given by its locations, or outside of all scripts. -/
  Code : Array Script → Option ScriptId → List Location → Prop
  Throws : Session → Exception → Prop

namespace Discipline

variable (D : Discipline)

structure Leads (s s' : Session) : Prop extends s.Resumes s' where
  heap : s.heap.Retains s'.heap
  goes : D.Goes s s'
  inv : D.Inv s'

def Runs (s : Session) (ls : List Location) : Prop :=
  D.Code s.scripts s.currentScript? ls

/-- The location may be blamed on the running script, if there is one. -/
def Covers (s : Session) (loc : Location) : Prop :=
  ∀ id, s.currentScript? = some id → D.Code s.scripts (some id) [loc]

/-- The place of a call may be blamed on the running script. A call from outside has no place. -/
def CoversCall (s : Session) (callSite : Option Location) : Prop :=
  ∀ loc, D.Covers s (callSite.getD loc)

/-- The operations that scripts have done on the heap. -/
inductive Does (s : Session) : Heap.Op → Prop where
  | array {elements : Array Value} (hvalues : ∀ v ∈ elements, D.Admits s.heap v)
    : Does s (.allocate (.array elements))
  | object : Does s (.allocate .ordinary)
  | error {c : ErrorClass} : Does s (.allocate (.error c))
  | closure {f : Function} (hcode : D.Runs s f.locations)
    : Does s (.allocate (.closure f s.scope? (s.currentScript?.getD ⟨0⟩)))
  | callScope {callee : ObjectId} {f : Function} {parent : Option ObjectId} {script : ScriptId}
      (hcallee : s.heap.content callee = .closure f parent script)
    : Does s (.allocate (.scope parent #[]))
  | handlerScope {name : String} {v : Value} (hvalue : D.Admits s.heap v)
    : Does s (.allocate (.scope s.scope? #[⟨name, v, true⟩]))
  | property {id : ObjectId} {key : String} {v : Value} (hobject : D.Admits s.heap (.object id))
      (hvalue : D.Admits s.heap v)
    : Does s (.setProperty id key v)
  | element {id : ObjectId} {index : Nat} {v : Value} (hobject : D.Admits s.heap (.object id))
      (hvalue : D.Admits s.heap v)
    : Does s (.setElement id index v)
  | variable {name : String} {v : Value} (hvalue : D.Admits s.heap v)
      (hfree : name ∉ s.consts ∨ s.heap.hasProperty s.global name = false)
    : Does s (.setProperty s.global name v)
  | binding {id : ObjectId} {name : String} {v : Value} {mutable : Bool} (hscope : D.Binds s.heap id)
      (hvalue : D.Admits s.heap v)
    : Does s (.declare id name v mutable)

/-- The changes that scripts and their host make in a session, apart from its frames. -/
inductive Change (s : Session) : Session → Prop where
  | store {op : Heap.Op} (hop : D.Does s op) : Change s (s.withHeap (op.apply s.heap))
  | const {name : String} {v : Value} (hscope : s.scope? = none) (hfree : name ∉ s.consts)
      (hvalue : D.Admits s.heap v)
    : Change s { s with
        heap := (Heap.Op.setProperty s.global name v).apply s.heap, consts := s.consts ++ [name] }
  | queue {task : Value} (hvalue : D.Admits s.heap task) (hcallable : (s.callable? task).isSome)
    : Change s { s with microtasks := s.microtasks ++ [task] }
  | dequeue {task : Value} {tasks : List Value} (hnext : s.microtasks = task :: tasks)
    : Change s { s with microtasks := tasks }
  | script (script : Script) : Change s { s with scripts := s.scripts.push script }
  | host (profiler : Profiler) (console : Console)
    : Change s { s with profiler := profiler, console := console }

/-- A change as sessions make it: what it stores in the heap is stored where it belongs. -/
structure Makes (s s' : Session) : Prop where
  change : D.Change s s'
  heap : s'.heap = s.heap ∨ ∃ op, D.Does s op ∧ s.Fits op ∧ s'.heap = op.apply s.heap

/-- The moves into an expression, into a call or a script, and into the scope of a handler. -/
inductive Enters (config : Config) (s : Session) : CallStack → Nat → Prop where
  | expression (hdepth : s.expressionDepth < config.maxExpressionDepth)
    : Enters config s s.stack (s.expressionDepth + 1)
  | frame {frame : Frame} {stack : CallStack} {ls : List Location}
      (hpush : s.stack.push? frame = some stack) (hcode : D.Code s.scripts (some frame.script) ls)
      (hscope : ∀ id ∈ frame.scope, D.Binds s.heap id) (hcall : D.CoversCall s frame.callSite)
    : Enters config s stack s.expressionDepth
  | handler {id : ObjectId} (hscope : D.Binds s.heap id)
    : Enters config s (s.stack.modifyCurrent fun frame => { frame with scope := some id })
        s.expressionDepth

/-- What a new object is to scripts. -/
def Made (content : Content) (id : ObjectId) (h : Heap) : Prop :=
  match content with
  | .scope .. => D.Binds h id
  | _ => D.Admits h (.object id)

/-- All that scripts do respects the discipline, but for the moves into other frames. -/
class Lawful : Prop where
  goes_refl {s : Session} (hs : D.Inv s) : D.Goes s s
  goes_trans {s s' s'' : Session} (hg : D.Goes s s') (hg' : D.Goes s' s'') : D.Goes s s''
  admits_mono {s s' : Session} {v : Value} (hl : D.Leads s s') (hv : D.Admits s.heap v)
    : D.Admits s'.heap v
  binds_mono {s s' : Session} {id : ObjectId} (hl : D.Leads s s') (hid : D.Binds s.heap id)
    : D.Binds s'.heap id
  code_mono {scripts scripts' : Array Script} {id : Option ScriptId} {ls : List Location}
    (hscripts : scripts.toList <+: scripts'.toList) (hcode : D.Code scripts id ls)
    : D.Code scripts' id ls
  code_subset {scripts : Array Script} {id : Option ScriptId} {ls ls' : List Location}
    (hsub : ls' ⊆ ls) (hcode : D.Code scripts id ls)
    : D.Code scripts id ls'
  throws_mono {s s' : Session} {e : Exception} (hl : D.Leads s s') (he : D.Throws s e) : D.Throws s' e
  /-- A value that is no object is never out of reach. -/
  admits_plain {h : Heap} {v : Value} (hv : v.object? = none) : D.Admits h v
  admits_variable {s : Session} {name : String} {v : Value} (hs : D.Inv s)
    (hread : s.readVariable? name = some v) : D.Admits s.heap v
  admits_member {s : Session} {id : ObjectId} (hs : D.Inv s) (hid : D.Admits s.heap (.object id))
    (key : String) : D.Admits s.heap (s.heap.member id key)
  admits_element {s : Session} {id : ObjectId} {elements : Array Value} {v : Value} (hs : D.Inv s)
    (hid : D.Admits s.heap (.object id)) (hcontent : s.heap.content id = .array elements)
    (hv : v ∈ elements) : D.Admits s.heap v
  admits_task {s : Session} {v : Value} (hs : D.Inv s) (hv : v ∈ s.microtasks) : D.Admits s.heap v
  binds_current {s : Session} {id : ObjectId} (hs : D.Inv s) (hid : s.scope? = some id)
    : D.Binds s.heap id
  binds_found {s : Session} {name : String} {id : ObjectId} {i : Nat} (hs : D.Inv s)
    (hfound : s.findBinding? name = some (id, i)) : D.Binds s.heap id
  code_closure {s : Session} {id : ObjectId} {f : Function} {parent : Option ObjectId}
    {script : ScriptId} (hs : D.Inv s) (hcontent : s.heap.content id = .closure f parent script)
    : D.Code s.scripts (some script) f.locations
  code_script {s : Session} {id : ScriptId} {script : Script} {stmts : List Stmt} (hs : D.Inv s)
    (hscript : s.script? id = some script) (hparse : parse script.source = .ok stmts)
    : D.Code s.scripts (some id) (Stmt.locationsAll stmts)
  change {s s' : Session} (hs : D.Inv s) (hm : D.Makes s s') : D.Goes s s' ∧ D.Inv s'
  made {s : Session} {content : Content} {id : ObjectId} {h : Heap} (hs : D.Inv s)
    (hop : D.Does s (.allocate content)) (hexec : Heap.exec (Heap.allocate content) s.heap = (.ok id, h))
    : D.Made content id h
  throws_failure {s : Session} {cause : Cause} {loc : Location} (hs : D.Inv s) (hc : D.Covers s loc)
    (hcause : cause.errorClass?.isSome) : D.Throws s (s.exception cause loc)
  throws_value {s : Session} {v : Value} {text : String} {loc : Location} (hs : D.Inv s)
    (hc : D.Covers s loc) (hv : D.Admits s.heap v)
    : D.Throws s ⟨⟨.thrown v text, loc⟩, s.site? loc, s.errorTrace? v⟩
  throws_malformed {s : Session} {id : ScriptId} {script : Script} {e : SyntaxError} (hs : D.Inv s)
    (hscript : s.script? id = some script) (hparse : parse script.source = .error e)
    : D.Throws s ⟨⟨.malformed e.fault.message, e.loc⟩, some ⟨id, e.loc⟩, none⟩
  /-- A handler that cannot be entered fails at the place of the exception that it got. -/
  throws_enter {s s' : Session} {ls : List Location} {handler : Handler} {caught e : Exception}
    {env : Env} {h : Heap} {oom : OutOfMemory} (hs : D.Inv s) (hr : D.Runs s ls)
    (hcaught : D.Throws s caught)
    (henter : Eval.enter handler caught env s = .thrown e s') (hs' : s' = s.withHeap h)
    (hl : D.Leads s s') (he : e = s'.exception (.host .rangeError oom.message) caught.fault.loc)
    : D.Throws s' e
  admits_caught {s : Session} {e : Exception} {v : Value} {text : String} (he : D.Throws s e)
    (hcause : e.fault.cause = .thrown v text) : D.Admits s.heap v

/-- The moves respect the discipline, too. -/
class LawfulUnder (config : Config) : Prop extends D.Lawful where
  enter {s : Session} {stack : CallStack} {depth : Nat} (hs : D.Inv s)
    (hm : D.Enters config s stack depth) : D.Inv (s.moved stack depth)
  leave {s s' : Session} {stack : CallStack} {depth : Nat} (hs : D.Inv s)
    (hm : D.Enters config s stack depth) (hl : D.Leads (s.moved stack depth) s')
    : D.Goes s (s'.moved s.stack s.expressionDepth) ∧ D.Inv (s'.moved s.stack s.expressionDepth)
  throws_leave {s s' : Session} {stack : CallStack} {depth : Nat} {e : Exception} (hs : D.Inv s)
    (hm : D.Enters config s stack depth) (hl : D.Leads (s.moved stack depth) s')
    (he : D.Throws s' e) : D.Throws (s'.moved s.stack s.expressionDepth) e

variable {D} {s s' s'' : Session} {ls ls' : List Location} {loc : Location} {h : Heap} {v : Value}

theorem Change.makes (hc : D.Change s s') (hheap : s'.heap = s.heap) : D.Makes s s' :=
  ⟨hc, .inl hheap⟩

theorem Does.makes {op : Heap.Op} (hop : D.Does s op) (hf : s.Fits op)
    : D.Makes s (s.withHeap (op.apply s.heap)) :=
  ⟨.store hop, .inr ⟨op, hop, hf, rfl⟩⟩

theorem Makes.heap_retains (hm : D.Makes s s') : s.heap.Retains s'.heap := by
  rcases hm.heap with heq | ⟨op, -, -, heq⟩
  . rw [heq]
    exact Heap.retains_refl _
  . rw [heq]
    exact Heap.retains_apply op _

theorem Leads.currentScript? (hl : D.Leads s s') : s'.currentScript? = s.currentScript? := by
  unfold Session.currentScript?
  rw [hl.stack]

theorem Leads.scope? (hl : D.Leads s s') : s'.scope? = s.scope? := by
  unfold Session.scope?
  rw [hl.stack]

variable [D.Lawful]

theorem leads_refl (hs : D.Inv s) : D.Leads s s :=
  ⟨⟨rfl, rfl, rfl, List.prefix_rfl⟩, Heap.retains_refl _, Lawful.goes_refl hs, hs⟩

theorem Leads.trans (hl : D.Leads s s') (hl' : D.Leads s' s'') : D.Leads s s'' where
  stack := hl'.stack.trans hl.stack
  depth := hl'.depth.trans hl.depth
  global := hl'.global.trans hl.global
  scripts := hl.scripts.trans hl'.scripts
  heap := hl.heap.trans hl'.heap
  goes := Lawful.goes_trans hl.goes hl'.goes
  inv := hl'.inv

theorem Runs.mono (hr : D.Runs s ls) (hls : ls' ⊆ ls) : D.Runs s ls' :=
  Lawful.code_subset hls hr

theorem Runs.covers (hr : D.Runs s ls) (hloc : loc ∈ ls) : D.Covers s loc := by
  intro id hid
  unfold Runs at hr
  rw [hid] at hr
  exact Lawful.code_subset (by simpa using hloc) hr

theorem Runs.left (hr : D.Runs s (ls ++ ls')) : D.Runs s ls :=
  hr.mono (List.subset_append_left _ _)

theorem Runs.right (hr : D.Runs s (ls ++ ls')) : D.Runs s ls' :=
  hr.mono (List.subset_append_right _ _)

theorem Runs.tail (hr : D.Runs s (loc :: ls)) : D.Runs s ls :=
  hr.mono (List.subset_cons_self _ _)

theorem Runs.head (hr : D.Runs s (loc :: ls)) : D.Covers s loc :=
  hr.covers List.mem_cons_self

namespace Leads

variable (hl : D.Leads s s')
include hl

theorem runs (hr : D.Runs s ls) : D.Runs s' ls := by
  unfold Runs at *
  rw [hl.currentScript?]
  exact Lawful.code_mono hl.scripts hr

theorem covers (hc : D.Covers s loc) : D.Covers s' loc := by
  intro id hid
  rw [hl.currentScript?] at hid
  exact Lawful.code_mono hl.scripts (hc id hid)

theorem coversCall {callSite : Option Location} (hc : D.CoversCall s callSite)
    : D.CoversCall s' callSite :=
  fun loc => hl.covers (hc loc)

theorem admits (hv : D.Admits s.heap v) : D.Admits s'.heap v :=
  Lawful.admits_mono hl hv

theorem binds {id : ObjectId} (hid : D.Binds s.heap id) : D.Binds s'.heap id :=
  Lawful.binds_mono hl hid

theorem throws {e : Exception} (he : D.Throws s e) : D.Throws s' e :=
  Lawful.throws_mono hl he

end Leads

theorem leads_change (hs : D.Inv s) (hm : D.Makes s s') : D.Leads s s' := by
  obtain ⟨hgoes, hinv⟩ := Lawful.change hs hm
  have hresumes : s.Resumes s' := by
    cases hm.change with
    | script script => exact ⟨rfl, rfl, rfl, by simp⟩
    | _ => exact ⟨rfl, rfl, rfl, List.prefix_rfl⟩
  exact ⟨hresumes, hm.heap_retains, hgoes, hinv⟩

/-! What sequences of operations on the heap leave behind. -/

abbrev Leaves (D : Discipline) (s : Session) (h : Heap) : Prop :=
  D.Leads s (s.withHeap h)

theorem Leaves.store {op : Heap.Op} (hl : D.Leaves s h) (hop : D.Does (s.withHeap h) op)
    (hf : (s.withHeap h).Fits op) : D.Leaves s (op.apply h) :=
  hl.trans (leads_change hl.inv (hop.makes hf))

/-- What is made is an object with that content. -/
theorem ensures_allocate {content : Content} (hl : D.Leaves s h)
    (hop : D.Does (s.withHeap h) (.allocate content))
    : Heap.Ensures (D.Leaves s) (fun id h => D.Made content id h ∧ h.Has id ∧ h.content id = content)
        (Heap.allocate content) h := by
  refine ⟨hl.store hop nofun, ?_⟩
  intro id hid
  have hexec : Heap.exec (Heap.allocate content) h = (.ok id, (Heap.exec (Heap.allocate content) h).2) :=
    Prod.ext hid rfl
  exact ⟨Lawful.made hl.inv hop hexec, Heap.has_allocated hexec, Heap.content_allocated hexec⟩

theorem ensures_store {α : Type} {x : HeapM α} {op : Heap.Op} (hx : (Heap.exec x h).2 = op.apply h)
    (hl : D.Leaves s h) (hop : D.Does (s.withHeap h) op) (hf : (s.withHeap h).Fits op)
    : Heap.Ensures (D.Leaves s) (fun _ h' => D.Leads (s.withHeap h) (s.withHeap h')) x h := by
  unfold Heap.Ensures
  rw [hx]
  exact ⟨hl.store hop hf, fun _ _ => leads_change hl.inv (hop.makes hf)⟩

theorem ensures_newError (hs : D.Inv s) (c : ErrorClass) (message : String) (trace : Option String)
    : Heap.Ensures (D.Leaves s) (fun id h => D.Admits h (.object id))
        (Heap.newError c message trace) s.heap := by
  have herror : Heap.Ensures (D.Leaves s)
      (fun id h => D.Admits h (.object id) ∧ h.Has id ∧ h.isArray id = false)
      (Heap.newError c message trace) s.heap := by
    apply Heap.ensures_newError
    . apply (ensures_allocate (leads_refl hs) .error).mono
      rintro id h - ⟨hmade, hid, hcontent⟩
      exact ⟨hmade, hid, by rw [Heap.isArray, hcontent]; rfl⟩
    . rintro id h hl ⟨hadmits, hid, harray⟩ key text
      have hop : D.Does (s.withHeap h) (.setProperty id key (.string text)) :=
        .property hadmits (Lawful.admits_plain rfl)
      have hf : (s.withHeap h).Fits (.setProperty id key (.string text)) :=
        Session.fits_property (fun h' => absurd (harray.symm.trans h') Bool.false_ne_true) _
      apply (ensures_store rfl hl hop hf).mono
      intro _ h' _ hl'
      exact ⟨hl'.admits hadmits, Heap.Retains.has hl'.heap hid, (Heap.Retains.isArray hl'.heap hid).trans harray⟩
  exact herror.mono fun _ _ _ hid => hid.1

theorem ensures_newCallScope {callee : ObjectId} {f : Function} {parent : Option ObjectId}
    {script : ScriptId} {args : List Value} (hs : D.Inv s)
    (hcontent : s.heap.content callee = .closure f parent script)
    (hcallee : D.Admits s.heap (.object callee)) (hargs : ∀ v ∈ args, D.Admits s.heap v)
    : Heap.Ensures (D.Leaves s) (fun id h => D.Binds h id)
        (Heap.newCallScope callee f parent args) s.heap := by
  apply Heap.ensures_newCallScope (V := D.Admits s.heap)
  . apply (ensures_allocate (leads_refl hs) (.callScope hcontent)).mono
    exact fun _ _ _ hid => hid.1
  . intro id h hl hid name v hv
    have hop : D.Does (s.withHeap h) (.declare id name v true) := .binding hid (hl.admits hv)
    apply (ensures_store rfl hl hop nofun).mono
    intro _ h' _ hl'
    exact hl'.binds hid
  . exact hcallee
  . exact hargs
  . exact Lawful.admits_plain rfl

/-! The disciplines that have an invariant, and ask nothing of values, code and exceptions. -/

def invariant (I : Session → Prop) (R : Session → Session → Prop) : Discipline where
  Inv := I
  Goes := R
  Admits _ _ := True
  Binds _ _ := True
  Code _ _ _ := True
  Throws _ _ := True

theorem invariant_lawful {I : Session → Prop} {R : Session → Session → Prop} (hrefl : ∀ s, R s s)
    (htrans : ∀ s s' s'', R s s' → R s' s'' → R s s'')
    (hchange : ∀ s s', I s → (invariant I R).Change s s' → R s s' ∧ I s')
    : (invariant I R).Lawful where
  goes_refl _ := hrefl _
  goes_trans hg hg' := htrans _ _ _ hg hg'
  admits_mono _ _ := trivial
  binds_mono _ _ := trivial
  code_mono _ _ := trivial
  code_subset _ _ := trivial
  throws_mono _ _ := trivial
  admits_plain _ := trivial
  admits_variable _ _ := trivial
  admits_member _ _ _ := trivial
  admits_element _ _ _ _ := trivial
  admits_task _ _ := trivial
  binds_current _ _ := trivial
  binds_found _ _ := trivial
  code_closure _ _ := trivial
  code_script _ _ _ := trivial
  change hs hm := hchange _ _ hs hm.change
  made _ _ _ := by
    unfold Made
    split <;> trivial
  throws_failure _ _ _ := trivial
  throws_value _ _ _ := trivial
  throws_malformed _ _ _ := trivial
  throws_enter _ _ _ _ _ _ _ := trivial
  admits_caught _ _ := trivial

/-- Nothing is asked of sessions, either. -/
instance : (invariant (fun _ => True) fun _ _ => True).Lawful :=
  invariant_lawful (fun _ => trivial) (fun _ _ _ _ _ => trivial) fun _ _ _ _ => ⟨trivial, trivial⟩

end Discipline
end ScriptHost
