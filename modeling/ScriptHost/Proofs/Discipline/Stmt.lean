import ScriptHost.Eval.Stmt
import ScriptHost.Proofs.Discipline.Expr
import ScriptHost.Proofs.Syntax.Occurs

/-!
This module contains that the rules for statements keep any lawful discipline, if the evaluation of their
parts does. A handler goes on from the frames that the statements of its `try` have started with. For the
parts, it is enough that this holds for some statements in some sessions, as those of a body in its scopes.
-/

namespace ScriptHost

namespace CallStack

theorem truncate_depth (stack : CallStack) : stack.truncate stack.depth = stack := by
  unfold truncate depth
  rw [Array.take_eq_extract, Array.extract_size]

/-- The scope that the running frame had before is put back. -/
theorem modifyCurrent_scope (stack : CallStack) (scope : Option ObjectId)
    : (stack.modifyCurrent fun frame => { frame with scope := scope }).modifyCurrent
          (fun frame => { frame with scope := stack.current?.bind Frame.scope })
        = stack := by
  obtain ⟨frames, maxDepth⟩ := stack
  unfold modifyCurrent depth current?
  have hframes : (frames.modify (frames.size - 1) fun frame => { frame with scope := scope }).modify
      (frames.size - 1) (fun frame => { frame with scope := frames.back?.bind Frame.scope })
        = frames := by
    apply Array.ext_getElem?
    intro i
    rw [Array.getElem?_modify, Array.getElem?_modify]
    split
    . next hi =>
      subst hi
      rw [Array.back?]
      cases frames[frames.size - 1]? <;> rfl
    . rfl
  simp only [Array.size_modify, hframes]

theorem script_modifyCurrent (stack : CallStack) (scope : Option ObjectId)
    : (stack.modifyCurrent fun frame => { frame with scope := scope }).current?.map Frame.script
        = stack.current?.map Frame.script := by
  unfold modifyCurrent depth current?
  rw [Array.back?, Array.back?, Array.size_modify, Array.getElem?_modify, if_pos rfl]
  cases stack.frames[stack.frames.size - 1]? <;> rfl

theorem scope_modifyCurrent {stack : CallStack} {frame : Frame} (hframe : stack.current? = some frame)
    (scope : Option ObjectId)
    : (stack.modifyCurrent fun frame => { frame with scope := scope }).current?.bind Frame.scope
        = scope := by
  unfold modifyCurrent depth current? at *
  rw [Array.back?] at hframe
  rw [Array.back?, Array.size_modify, Array.getElem?_modify, if_pos rfl, hframe]
  rfl

end CallStack

namespace Session

/-- The session in another scope of the running frame. -/
def within (s : Session) (scope : ObjectId) : Session :=
  s.moved (s.stack.modifyCurrent fun frame => { frame with scope := some scope }) s.expressionDepth

theorem currentScript?_within (s : Session) (scope : ObjectId)
    : (s.within scope).currentScript? = s.currentScript? :=
  s.stack.script_modifyCurrent (some scope)

theorem scope?_within {s : Session} {outer : ObjectId} (houter : s.scope? = some outer)
    (scope : ObjectId)
    : (s.within scope).scope? = some scope := by
  obtain ⟨frame, hframe, -⟩ := Option.bind_eq_some_iff.1 houter
  exact s.stack.scope_modifyCurrent hframe (some scope)

end Session

namespace Run

variable {D : Discipline} [D.Lawful] {s : Session}

/-- The value of an exception is found, or there is no memory for it at the place of the exception. -/
theorem exceptionValue_kept {caught : Exception} (hs : D.Inv s) (he : D.Throws s caught) (env : Env)
    : (∃ v h, exceptionValue caught env s = .done v (s.withHeap h) ∧ D.Leaves s h ∧ D.Admits h v) ∨
      ∃ (oom : OutOfMemory) (h : Heap), exceptionValue caught env s
          = .thrown ((s.withHeap h).exception (.host .rangeError oom.message) caught.fault.loc)
              (s.withHeap h) ∧
        D.Leaves s h := by
  by_cases hcause : ∃ v text, caught.fault.cause = .thrown v text
  . obtain ⟨v, text, hcause⟩ := hcause
    rw [exceptionValue_thrown hcause]
    exact Or.inl ⟨v, s.heap, rfl, Discipline.leads_refl hs, Discipline.Lawful.admits_caught he hcause⟩
  . simp only [not_exists] at hcause
    rw [exceptionValue_failure hcause]
    rcases heap_kept (Discipline.ensures_newError hs _ _ _) caught.fault.loc env with
      ⟨id, h, hout, hl, hid⟩ | ⟨oom, h, hout, hl⟩
    . exact Or.inl ⟨_, h, bind_done hout _, hl, hid⟩
    . exact Or.inr ⟨oom, h, bind_thrown hout _, hl⟩

end Run

namespace Eval

open Run

variable {D : Discipline} {env : Env} {ev ev' : Evaluator} {s : Session} {loc : Location}

section Frames

variable [D.LawfulUnder env.config]

theorem agree_inScope {x x' : Run Completion} {scope : ObjectId} {ls : List Location}
    (hscope : D.Binds s.heap scope) (hr : D.Runs s ls)
    (hx : D.Runs (s.within scope) ls → Agree D env (s.within scope) D.Ends x x')
    : Agree D env s D.Ends (inScope scope x) (inScope scope x') := by
  apply agree_get
  apply agree_moved rfl (.handler hscope)
  . intro s' hstack hdepth
    have hrestored := s.stack.modifyCurrent_scope (some scope)
    rw [← hstack] at hrestored
    change { s' with stack := s'.stack.modifyCurrent fun frame => { frame with scope := s.scope? } }
      = { s' with stack := s.stack, expressionDepth := s.expressionDepth }
    rw [← hdepth]
    exact congrArg (fun stack => { s' with stack := stack }) hrestored
  . apply hx
    unfold Discipline.Runs
    rw [s.currentScript?_within]
    exact hr

end Frames

theorem ends_normal {h : Heap} : Ends D.Ends (some .normal) h := by
  rintro _ ⟨⟩
  exact nofun

/-- What a loop ends with, if the body makes it end. -/
theorem ends_loopEnd? {completion : Completion} {h : Heap} (hc : D.Ends completion h)
    : Ends D.Ends completion.loopEnd? h := by
  intro last hlast v hv
  subst hv
  cases completion with
  | «return» v' =>
    cases hlast
    exact hc v rfl
  | _ => cases hlast

/-- The scope for the parameter of a handler, if it has one. -/
def paramScope (handler : Handler) (caught : Exception) (v : Value) : Run (Option ObjectId) := do
  match handler.param with
  | none => return none
  | some param =>
    let content := .scope (← Run.get).scope? #[⟨param, v, true⟩]
    return some (← Run.heap caught.fault.loc (Heap.allocate content))

theorem enter_eq (handler : Handler) (caught : Exception)
    : enter handler caught = exceptionValue caught >>= paramScope handler caught := rfl

/-- A `try` around `x` with a finalizer, where `handle` runs the handler. -/
def tryScoped (x : Run Completion) (handle : Handler → Exception → Run Completion)
    (handler : Option Handler) (finalizer : Run Completion) : Run Completion := do
  let guarded : Run Completion := do
    let depth := (← Run.get).stack.depth
    match ← Run.attempt x, handler with
    | .error e, some handler =>
      Run.modify fun s => { s with stack := s.stack.truncate depth }
      handle handler e
    | result, _ => Run.ofExcept result
  let result ← Run.attempt guarded
  match ← finalizer with
  | .normal => Run.ofExcept result
  | completion => return completion

/-- Execute a statement, where `var` runs the declarators of `var`, and `handle` the handlers. -/
def stmtScoped (ev : Evaluator) (var : Declarator → Run Unit)
    (handle : Handler → Exception → Run Completion) (st : Stmt) : Run Completion :=
  match st with
  | .declare .var declarators _ => do
    declarators.forM var
    return .normal
  | .try stmts handler finalizer _ => tryScoped (block ev stmts) handle handler (block? ev finalizer)
  | st => stmt ev st

theorem stmt_eq_stmtScoped (ev : Evaluator) (st : Stmt)
    : stmt ev st = stmtScoped ev (declarator ev .var) (handle ev) st := by
  cases st with
  | declare kind => cases kind <;> rfl
  | _ => rfl

section Lawful

variable [D.Lawful]

theorem paramScope_kept {v : Value} (hs : D.Inv s) (hv : D.Admits s.heap v) (handler : Handler)
    (caught : Exception) (env : Env)
    : (∃ scope? h, paramScope handler caught v env s = .done scope? (s.withHeap h) ∧
        D.Leaves s h ∧ ∀ id ∈ scope?, D.Binds h id ∧ (h.content id).scope? = s.scope?) ∨
      ∃ (oom : OutOfMemory) (h : Heap), paramScope handler caught v env s
          = .thrown ((s.withHeap h).exception (.host .rangeError oom.message) caught.fault.loc)
              (s.withHeap h) ∧
        D.Leaves s h := by
  unfold paramScope
  cases handler.param with
  | none => exact Or.inl ⟨none, s.heap, rfl, Discipline.leads_refl hs, by simp⟩
  | some param =>
    dsimp only
    have hop : D.Does s (.allocate (.scope s.scope? #[⟨param, v, true⟩])) := .handlerScope hv
    have hmade := Discipline.ensures_allocate (Discipline.leads_refl hs) hop
    rcases heap_kept hmade caught.fault.loc env with ⟨id, h, hout, hl, hid⟩ | ⟨oom, h, hout, hl⟩
    . refine Or.inl ⟨some id, h, bind_done hout _, hl, ?_⟩
      rintro _ ⟨⟩
      refine ⟨hid.1, ?_⟩
      rw [hid.2.2]
      rfl
    . exact Or.inr ⟨oom, h, bind_thrown hout _, hl⟩

/-- A handler is entered, or there is no memory for it at the place of the exception that it gets. -/
theorem enter_kept {caught : Exception} (hs : D.Inv s) (he : D.Throws s caught) (handler : Handler)
    (env : Env)
    : (∃ scope? h, enter handler caught env s = .done scope? (s.withHeap h) ∧
        D.Leaves s h ∧ ∀ id ∈ scope?, D.Binds h id ∧ (h.content id).scope? = s.scope?) ∨
      ∃ (oom : OutOfMemory) (h : Heap), enter handler caught env s
          = .thrown ((s.withHeap h).exception (.host .rangeError oom.message) caught.fault.loc)
              (s.withHeap h) ∧
        D.Leaves s h := by
  rw [enter_eq]
  rcases exceptionValue_kept hs he env with ⟨v, h, hout, hl, hv⟩ | ⟨oom, h, hout, hl⟩
  . rw [bind_done hout]
    rcases paramScope_kept hl.inv hv handler caught env with
      ⟨scope?, h', hout', hl', hscope⟩ | ⟨oom, h', hout', hl'⟩
    . exact Or.inl ⟨scope?, h', hout', hl.trans hl', hscope⟩
    . exact Or.inr ⟨oom, h', hout', hl.trans hl'⟩
  . exact Or.inr ⟨oom, h, bind_thrown hout _, hl⟩

theorem obeys_enter {ls : List Location} {caught : Exception} (hr : D.Runs s ls)
    (he : D.Throws s caught) (handler : Handler)
    : Obeys D env s (fun scope? h => ∀ id ∈ scope?, D.Binds h id ∧ (h.content id).scope? = s.scope?)
        (enter handler caught) := by
  intro hs
  refine ⟨rfl, ?_⟩
  rcases enter_kept hs he handler env with ⟨scope?, h, hout, hl, hscope⟩ | ⟨oom, h, hout, hl⟩
  . rw [hout]
    exact ⟨hl, hscope⟩
  . rw [hout]
    exact ⟨hl, Discipline.Lawful.throws_enter hs hr he hout rfl hl rfl⟩

theorem agree_declarators {ds : List Declarator} {f f' : Declarator → Run Unit}
    (hr : D.Runs s (Declarator.locationsAll ds))
    (hf : ∀ d ∈ ds, ∀ s', D.Leads s s' → D.Runs s' (Expr.locations? d.init) → D.Covers s' d.loc →
      Agree D env s' Any (f d) (f' d))
    : Agree D env s D.Ends (do ds.forM f; return .normal) (do ds.forM f'; return .normal) := by
  apply Agree.bind (P := Any)
  . apply agree_forM
    intro d hd s' hl
    have hd' := hl.runs (hr.mono (Declarator.locations_subset_all hd))
    exact hf d hd s' hl hd'.tail hd'.head
  . intro _ s' _ _
    exact obeys_pure nofun

theorem agree_tryScoped {x x' finalizer finalizer' : Run Completion}
    {handle handle' : Handler → Exception → Run Completion} {handler : Option Handler}
    (hx : Agree D env s D.Ends x x')
    (hhandle : ∀ h ∈ handler, ∀ e s', D.Leads s s' → D.Throws s' e →
      Agree D env s' D.Ends (handle h e) (handle' h e))
    (hfinalizer : ∀ s', D.Leads s s' → Agree D env s' D.Ends finalizer finalizer')
    : Agree D env s D.Ends (tryScoped x handle handler finalizer)
        (tryScoped x' handle' handler finalizer') := by
  refine Agree.attempt (P := D.Ends) ?_ ?_ ?_
  . apply agree_get
    apply hx.attempt
    . intro completion s' _ hcompletion
      cases handler <;> exact obeys_pure hcompletion
    . intro e s₁ hl₁ he
      cases handler with
      | none => exact obeys_throw he
      | some handler =>
        have hstack : { s₁ with stack := s₁.stack.truncate s.stack.depth } = s₁ := by
          rw [← hl₁.stack, CallStack.truncate_depth]
        apply (obeys_modify_of_eq hstack).bind
        intro _ s₂ hl₂ _
        exact hhandle handler rfl e s₂ (hl₁.trans hl₂) (hl₂.throws he)
  . intro completion s₁ hl₁ hcompletion
    apply (hfinalizer s₁ hl₁).bind
    intro last s₂ hl₂ hlast
    cases last with
    | normal => exact obeys_pure fun v hv => hl₂.admits (hcompletion v hv)
    | _ => exact obeys_pure hlast
  . intro e s₁ hl₁ he
    apply (hfinalizer s₁ hl₁).bind
    intro last s₂ hl₂ hlast
    cases last with
    | normal => exact obeys_throw (hl₂.throws he)
    | _ => exact obeys_pure hlast

end Lawful

end Eval

/--
Two evaluators agree on expressions, and on the statements that `W` holds for, in the sessions that `Q`
holds for and in all that becomes of them.
-/
structure Evaluator.AgreeWithin (D : Discipline) (env : Env) (Q : Session → Prop) (W : Stmt → Prop)
    (ev ev' : Evaluator) : Prop where
  lasts : ∀ {s s' : Session}, Q s → D.Leads s s' → Q s'
  expr : ∀ {s : Session} {e : Expr}, Q s → D.Runs s e.locations →
    Run.Agree D env s D.Gives (ev.expr e) (ev'.expr e)
  stmt : ∀ {s : Session} {st : Stmt}, Q s → W st → D.Runs s st.locations →
    Run.Agree D env s D.Ends (ev.stmt st) (ev'.stmt st)

theorem Evaluator.Agree.within {D : Discipline} {env : Env} {ev ev' : Evaluator}
    (hev : ev.Agree D env ev')
    : ev.AgreeWithin D env (fun _ => True) (fun _ => True) ev' :=
  ⟨fun _ _ => trivial, fun _ => hev.expr, fun _ _ => hev.stmt⟩

namespace Evaluator.AgreeWithin

open Run Eval

variable {D : Discipline} {env : Env} {Q : Session → Prop} {W : Stmt → Prop} {ev ev' : Evaluator}
  {s : Session} [D.Lawful] (hev : ev.AgreeWithin D env Q W ev') (hq : Q s)
include hev hq

theorem block {stmts : List Stmt} (hw : ∀ st ∈ stmts, W st) (hr : D.Runs s (Stmt.locationsAll stmts))
    : Run.Agree D env s D.Ends (Eval.block ev stmts) (Eval.block ev' stmts) := by
  induction stmts generalizing s with
  | nil => exact obeys_pure nofun
  | cons st stmts ih =>
    obtain ⟨hst, hstmts⟩ := List.forall_mem_cons.1 hw
    apply (hev.stmt hq hst hr.left).bind
    intro completion s' hl hcompletion
    cases completion with
    | normal => exact ih (hev.lasts hq hl) hstmts (hl.runs hr.right)
    | _ => exact obeys_pure hcompletion

theorem block? {stmts : Option (List Stmt)} (hw : ∀ stmts' ∈ stmts, ∀ st ∈ stmts', W st)
    (hr : D.Runs s (Stmt.locationsAll? stmts))
    : Run.Agree D env s D.Ends (Eval.block? ev stmts) (Eval.block? ev' stmts) := by
  cases stmts with
  | some stmts => exact hev.block hq (hw stmts rfl) hr
  | none => exact obeys_pure nofun

theorem declarator {d : Declarator} (hinit : D.Runs s (Expr.locations? d.init))
    (hc : D.Covers s d.loc) (kind : DeclareKind)
    : Run.Agree D env s Any (Eval.declarator ev kind d) (Eval.declarator ev' kind d) := by
  unfold Eval.declarator
  cases hd : d.init with
  | some init =>
    rw [hd] at hinit
    cases kind with
    | var =>
      apply (hev.expr hq hinit).bind
      intro v s' hl hv
      exact obeys_writeVariable (hl.covers hc) d.name hv
    | «let» | const =>
      apply (hev.expr hq hinit).bind
      intro v s' hl hv
      exact obeys_declare (hl.covers hc) _ d.name hv
  | none =>
    cases kind with
    | var => exact obeys_pure trivial
    | «let» | const => exact obeys_declare hc _ d.name (Discipline.Lawful.admits_plain rfl)

theorem whileLoop {condition : Expr} {body : List Stmt} (hw : ∀ st ∈ body, W st)
    (hcondition : D.Runs s condition.locations) (hbody : D.Runs s (Stmt.locationsAll body))
    : Run.Agree D env s D.Ends (Eval.whileLoop ev condition body) (Eval.whileLoop ev' condition body) := by
  apply agree_untilSome
  intro s₁ hl₁
  have hq₁ := hev.lasts hq hl₁
  apply (hev.expr hq₁ (hl₁.runs hcondition)).bind
  intro v s₂ hl₂ _
  split
  . apply (hev.block (hev.lasts hq₁ hl₂) hw ((hl₁.trans hl₂).runs hbody)).bind
    intro completion s₃ _ hcompletion
    exact obeys_pure (ends_loopEnd? hcompletion)
  . exact obeys_pure ends_normal

theorem doWhileLoop {condition : Expr} {body : List Stmt} (hw : ∀ st ∈ body, W st)
    (hcondition : D.Runs s condition.locations) (hbody : D.Runs s (Stmt.locationsAll body))
    : Run.Agree D env s D.Ends (Eval.doWhileLoop ev body condition) (Eval.doWhileLoop ev' body condition) := by
  apply agree_untilSome
  intro s₁ hl₁
  have hq₁ := hev.lasts hq hl₁
  apply (hev.block hq₁ hw (hl₁.runs hbody)).bind
  intro completion s₂ hl₂ hcompletion
  have hend := ends_loopEnd? hcompletion
  cases hloop : completion.loopEnd? with
  | some last =>
    rw [hloop] at hend
    exact obeys_pure hend
  | none =>
    apply (hev.expr (hev.lasts hq₁ hl₂) ((hl₁.trans hl₂).runs hcondition)).bind
    intro v s₃ _ _
    split
    . exact obeys_pure nofun
    . exact obeys_pure ends_normal

theorem holds {condition : Option Expr} (hr : D.Runs s (Expr.locations? condition))
    : Run.Agree D env s Any (Eval.holds ev condition) (Eval.holds ev' condition) := by
  cases condition with
  | some condition =>
    apply (hev.expr hq hr).bind
    intro v s' _ _
    exact obeys_pure trivial
  | none => exact obeys_pure trivial

theorem forLoop {condition next : Option Expr} {body : List Stmt} (hw : ∀ st ∈ body, W st)
    (hcondition : D.Runs s (Expr.locations? condition)) (hnext : D.Runs s (Expr.locations? next))
    (hbody : D.Runs s (Stmt.locationsAll body))
    : Run.Agree D env s D.Ends (Eval.forLoop ev condition next body)
        (Eval.forLoop ev' condition next body) := by
  apply agree_untilSome
  intro s₁ hl₁
  have hq₁ := hev.lasts hq hl₁
  apply (hev.holds hq₁ (hl₁.runs hcondition)).bind
  intro holds s₂ hl₂ _
  have hl := hl₁.trans hl₂
  have hq₂ := hev.lasts hq₁ hl₂
  split
  . apply (hev.block hq₂ hw (hl.runs hbody)).bind
    intro completion s₃ hl₃ hcompletion
    have hend := ends_loopEnd? hcompletion
    cases hloop : completion.loopEnd? with
    | some last =>
      rw [hloop] at hend
      exact obeys_pure hend
    | none =>
      cases next with
      | some next =>
        apply (hev.expr (hev.lasts hq₂ hl₃) ((hl.trans hl₃).runs hnext)).discard.bind
        intro _ s₄ _ _
        exact obeys_pure nofun
      | none => exact obeys_pure nofun
  . exact obeys_pure ends_normal

/-- The rules for statements, given those for declarators of `var` and for handlers. -/
theorem stmtScoped {var var' : Declarator → Run Unit} {handle handle' : Handler → Exception → Run Completion}
    {st : Stmt} (hw : ∀ stmts ∈ st.bodies, ∀ st' ∈ stmts, W st') (hr : D.Runs s st.locations)
    (hvar : ∀ {s d}, Q s → d.name ∈ st.declared → D.Runs s (Expr.locations? d.init) →
      D.Covers s d.loc → Run.Agree D env s Any (var d) (var' d))
    (hhandle : ∀ {s handler caught}, Q s → handler.body ∈ st.bodies →
      D.Runs s (Stmt.locationsAll handler.body) → D.Throws s caught →
      Run.Agree D env s D.Ends (handle handler caught) (handle' handler caught))
    : Run.Agree D env s D.Ends (Eval.stmtScoped ev var handle st) (Eval.stmtScoped ev' var' handle' st) := by
  cases st with
  | declare kind declarators loc =>
    cases kind with
    | var =>
      apply agree_declarators hr.tail
      intro d hd s' hl hinit hc
      exact hvar (hev.lasts hq hl) (List.mem_map_of_mem hd) hinit hc
    | «let» | const =>
      apply agree_declarators hr.tail
      intro d _ s' hl hinit hc
      exact hev.declarator (hev.lasts hq hl) hinit hc _
  | function _ | empty _ | «break» _ | «continue» _ => exact obeys_pure nofun
  | «return» value loc =>
    cases value with
    | some value =>
      apply (hev.expr hq hr.tail).bind
      intro v s' _ hv
      exact obeys_pure fun _ heq => by cases heq; exact hv
    | none => exact obeys_pure fun _ heq => by cases heq; exact Discipline.Lawful.admits_plain rfl
  | «if» condition thenBranch elseBranch loc =>
    have hparts := hr.tail
    apply (hev.expr hq hparts.left.left).bind
    intro v s' hl _
    have hq' := hev.lasts hq hl
    split
    . exact hev.block hq' (hw thenBranch List.mem_cons_self) (hl.runs hparts.left.right)
    . apply hev.block? hq' _ (hl.runs hparts.right)
      exact fun stmts hstmts => hw stmts (List.mem_cons_of_mem _ (Option.mem_toList.2 hstmts))
  | «while» condition body loc =>
    exact hev.whileLoop hq (hw body List.mem_cons_self) hr.tail.left hr.tail.right
  | doWhile body condition loc =>
    exact hev.doWhileLoop hq (hw body List.mem_cons_self) hr.tail.right hr.tail.left
  | «for» init condition update body loc =>
    have hparts := hr.tail
    have hbody : ∀ st ∈ body, W st := hw body (List.mem_cons_of_mem _ List.mem_cons_self)
    have hloop : ∀ s', D.Leads s s' → Run.Agree D env s' D.Ends (Eval.forLoop ev condition update body)
        (Eval.forLoop ev' condition update body) := fun s' hl =>
      hev.forLoop (hev.lasts hq hl) hbody (hl.runs hparts.left.left.right)
        (hl.runs hparts.left.right) (hl.runs hparts.right)
    cases init with
    | some init =>
      have hinit : W init := hw [init] List.mem_cons_self init List.mem_cons_self
      apply (hev.stmt hq hinit hparts.left.left.left).discard.bind
      intro _ s' hl _
      exact hloop s' hl
    | none =>
      intro hs
      exact hloop s (Discipline.leads_refl hs) hs
  | throw value loc =>
    apply (hev.expr hq hr.tail).bind
    intro v s' hl hv
    exact obeys_throwValue (hl.covers hr.head) hv
  | «try» stmts handler finalizer loc =>
    have hparts := hr.tail
    apply agree_tryScoped
    . exact hev.block hq (hw stmts List.mem_cons_self) hparts.left.left
    . intro h hh e s' hl he
      cases hh
      have hbody : h.body ∈ Stmt.bodies (.try stmts (some h) finalizer loc) :=
        List.mem_cons_of_mem _ List.mem_cons_self
      have hr' := hl.runs hparts.left.right
      rw [Handler.locations?_some] at hr'
      exact hhandle (hev.lasts hq hl) hbody hr' he
    . intro s' hl
      apply hev.block? (hev.lasts hq hl) _ (hl.runs hparts.right)
      intro stmts' hstmts'
      exact hw stmts' (List.mem_cons_of_mem _ (List.mem_append_right _ (Option.mem_toList.2 hstmts')))
  | block stmts loc => exact hev.block hq (hw stmts List.mem_cons_self) hr.tail
  | expr value loc =>
    apply (hev.expr hq hr.tail).discard.bind
    intro _ s' _ _
    exact obeys_pure nofun

end Evaluator.AgreeWithin

namespace Eval

open Run

variable {D : Discipline} {env : Env} {ev ev' : Evaluator} {s : Session}

theorem agree_block [D.Lawful] (hev : ev.Agree D env ev') {stmts : List Stmt}
    (hr : D.Runs s (Stmt.locationsAll stmts))
    : Agree D env s D.Ends (block ev stmts) (block ev' stmts) :=
  hev.within.block trivial (fun _ _ => trivial) hr

theorem agree_handle [D.LawfulUnder env.config] (hev : ev.Agree D env ev') {handler : Handler}
    {caught : Exception} (hr : D.Runs s (Stmt.locationsAll handler.body)) (he : D.Throws s caught)
    : Agree D env s D.Ends (handle ev handler caught) (handle ev' handler caught) := by
  rw [handle_eq, handle_eq]
  apply (obeys_enter hr he handler).bind
  intro scope s' hl hscope
  have hr' := hl.runs hr
  cases scope with
  | none => exact agree_block hev hr'
  | some scope => exact agree_inScope (hscope scope rfl).1 hr' (agree_block hev)

theorem agree_stmt [D.LawfulUnder env.config] (hev : ev.Agree D env ev') {st : Stmt}
    (hr : D.Runs s st.locations)
    : Agree D env s D.Ends (stmt ev st) (stmt ev' st) := by
  rw [stmt_eq_stmtScoped, stmt_eq_stmtScoped]
  apply hev.within.stmtScoped trivial (fun _ _ _ _ => trivial) hr
  . intro s' d _ _ hinit hc
    exact hev.within.declarator trivial hinit hc .var
  . intro s' handler caught _ _ hr' he
    exact agree_handle hev hr' he

end Eval
end ScriptHost
