import ScriptHost.Eval
import ScriptHost.Proofs.Discipline.Stmt

/-!
This module contains that calls and scripts keep any lawful discipline, and with them the whole
evaluation: a call runs the code of a closure in a frame of its own, with the scope made for it.
-/

namespace ScriptHost

namespace CallStack

variable {stack stack' : CallStack} {frame : Frame}

theorem truncate_push? (hpush : stack.push? frame = some stack')
    : stack'.truncate stack.depth = stack := by
  unfold push? at hpush
  split at hpush
  . cases hpush
  . cases hpush
    have hframes : (stack.frames.push frame).take stack.frames.size = stack.frames := by
      simp [Array.take_eq_extract]
    simp only [truncate, depth, hframes]

theorem current?_push? (hpush : stack.push? frame = some stack') : stack'.current? = some frame := by
  unfold push? at hpush
  split at hpush
  . cases hpush
  . cases hpush
    simp [current?]

end CallStack

namespace Evaluator.AgreeWithin

open Run

variable {D : Discipline} {env : Env} {Q : Session → Prop} {W : Stmt → Prop} {ev ev' : Evaluator}
  {s : Session}

theorem untilReturn [D.Lawful] (hev : ev.AgreeWithin D env Q W ev') (hq : Q s) {stmts : List Stmt}
    (hw : ∀ st ∈ stmts, W st) (hr : D.Runs s (Stmt.locationsAll stmts))
    : Run.Agree D env s D.Gives (Eval.untilReturn ev stmts) (Eval.untilReturn ev' stmts) := by
  induction stmts generalizing s with
  | nil => exact obeys_plain rfl
  | cons st stmts ih =>
    obtain ⟨hst, hstmts⟩ := List.forall_mem_cons.1 hw
    apply (hev.stmt hq hst hr.left).bind
    intro completion s' hl hcompletion
    cases completion with
    | «return» v => exact obeys_pure (hcompletion v rfl)
    | _ => exact ih (hev.lasts hq hl) hstmts (hl.runs hr.right)

end Evaluator.AgreeWithin

namespace Eval

open Run

variable {α : Type} {D : Discipline} {env : Env} {ev ev' : Evaluator} {s : Session} {loc : Location}

/-- Call an object, where `body` runs the bodies of closures in the scopes made for their calls. -/
def callScoped (body : ObjectId → FunctionBody → Run Value) (ev : Evaluator) (callee : ObjectId)
    (args : List Value) (callSite : Option Location) : Run Value := do
  match (← Run.get).heap.content callee with
  | .native builtin => native ev builtin args (callSite.getD {})
  | .closure f parent script =>
    let loc := callSite.getD f.loc
    let scope ← Run.heap loc (Heap.newCallScope callee f parent args)
    inFrame ⟨f.name.getD "", script, some scope, callSite⟩ loc (body scope f.body)
  | _ => Run.raise (.notCallable (← Run.display (.object callee))) (callSite.getD {})

/-- Call an object, where `body` runs the bodies of closures. -/
def callWith (body : FunctionBody → Run Value) (ev : Evaluator) (callee : ObjectId)
    (args : List Value) (callSite : Option Location) : Run Value := do
  match (← Run.get).heap.content callee with
  | .native builtin => native ev builtin args (callSite.getD {})
  | .closure f parent script =>
    let loc := callSite.getD f.loc
    let scope ← Run.heap loc (Heap.newCallScope callee f parent args)
    inFrame ⟨f.name.getD "", script, some scope, callSite⟩ loc (body f.body)
  | _ => Run.raise (.notCallable (← Run.display (.object callee))) (callSite.getD {})

theorem callWith_eq (body : FunctionBody → Run Value) : callWith body = callScoped fun _ => body := rfl

theorem call_eq (ev : Evaluator) : call ev = callWith (functionBody ev) ev := rfl

/-- Register a text as a script and run it at top level, where `run` runs its statements. -/
def scriptWith (run : List Stmt → Run Value) (source origin : String) (callSite : Option Location) :
    Run Value := do
  let id : ScriptId := ⟨(← Run.get).scripts.size⟩
  Run.modify fun s => { s with scripts := s.scripts.push ⟨origin, source⟩ }
  match parse source with
  | .error e =>
    Run.throw ⟨⟨.malformed e.fault.message, e.loc⟩, some ⟨id, e.loc⟩, none⟩
  | .ok stmts =>
    inFrame { script := id, callSite } (callSite.getD {}) (run stmts)

theorem script_eq (ev : Evaluator) : script ev = scriptWith (program ev) := rfl

theorem agree_inFrame [D.LawfulUnder env.config] {P : α → Heap → Prop} {x x' : Run α} {frame : Frame}
    {ls : List Location} (hc : D.Covers s loc) (hcode : D.Code s.scripts (some frame.script) ls)
    (hscope : ∀ id ∈ frame.scope, D.Binds s.heap id) (hcall : D.CoversCall s frame.callSite)
    (hx : ∀ s', s'.scope? = frame.scope → D.Runs s' ls → Agree D env s' P x x')
    : Agree D env s P (inFrame frame loc x) (inFrame frame loc x') := by
  apply agree_get
  dsimp only
  cases hpush : s.stack.push? frame with
  | none => exact obeys_raise hc rfl
  | some stack =>
    apply agree_moved rfl (.frame hpush hcode hscope hcall)
    . intro s' hstack hdepth
      change { s' with stack := s'.stack.truncate s.stack.depth }
        = { s' with stack := s.stack, expressionDepth := s.expressionDepth }
      rw [hstack, CallStack.truncate_push? hpush, ← hdepth]
    . have hcurrent : stack.current? = some frame := CallStack.current?_push? hpush
      apply hx
      . unfold Session.scope? Session.moved
        rw [hcurrent]
        rfl
      . unfold Discipline.Runs Session.currentScript? Session.moved
        rw [hcurrent]
        exact hcode

section Lawful

variable [D.Lawful]

theorem obeys_hoist {stmts : List Stmt} (hr : D.Runs s (Stmt.locationsAll stmts))
    : Obeys D env s Any (hoist stmts) := by
  have hwithin := Stmt.hoistedAll_within stmts
  apply Agree.bind (P := Any)
  . apply agree_forM
    intro v hv s' hl
    exact obeys_declareVar (hl.covers (hr.covers (hwithin.vars v hv))) v.1
  . intro _ s₁ hl₁ _
    apply agree_forM
    intro f hf s₂ hl₂
    have hf' := (hl₁.trans hl₂).runs (hr.mono (hwithin.functions f hf))
    apply (obeys_closure hf').bind
    intro v s₃ hl₃ hv
    cases f.name with
    | some name => exact obeys_declare (hl₃.covers (hf'.covers f.loc_mem_locations)) _ name hv
    | none => exact obeys_pure trivial

theorem obeys_sourceText (hc : D.Covers s loc) (name : String)
    : Obeys D env s Any (sourceText name loc) := by
  apply (obeys_load name).bind
  intro answer s' hl _
  cases answer with
  | ok text => exact obeys_pure trivial
  | error _ => exact obeys_raise (hl.covers hc) rfl

theorem obeys_print (args : List Value) : Obeys D env s D.Gives (print args) := by
  apply Agree.bind (P := Any)
  . apply (agree_mapM (Q := Any) (fun _ _ _ _ _ => trivial) fun v _ _ _ => obeys_display v).mono
    exact fun _ _ _ => trivial
  . intro texts s₁ _ _
    apply (obeys_write _ _).bind
    intro _ s₂ _ _
    exact obeys_plain rfl

theorem obeys_read (hc : D.Covers s loc) (args : List Value)
    : Obeys D env s D.Gives (read args loc) := by
  unfold read
  split
  . apply (obeys_display _).bind
    intro name s₁ hl₁ _
    apply (obeys_sourceText (hl₁.covers hc) name).bind
    intro text s₂ _ _
    exact obeys_plain rfl
  . exact obeys_raise hc rfl

theorem obeys_haunt (hc : D.Covers s loc) : Obeys D env s D.Gives (haunt loc) := by
  apply agree_get
  dsimp only
  apply (obeys_modify (Discipline.Change.makes (.host _ _) rfl)).bind
  intro _ s₁ hl₁ _
  cases (s.profiler.haunt s.heap s.roots).1 with
  | ok report =>
    apply (obeys_write _ _).bind
    intro _ s₂ _ _
    exact obeys_plain rfl
  | error miss => exact obeys_raise (hl₁.covers hc) rfl

theorem obeys_queueMicrotask (hc : D.Covers s loc) {args : List Value}
    (hargs : ∀ v ∈ args, D.Admits s.heap v)
    : Obeys D env s D.Gives (queueMicrotask args loc) := by
  have htask : D.Admits s.heap (args.headD .undefined) := by
    cases args with
    | nil => exact Discipline.Lawful.admits_plain rfl
    | cons v args => exact hargs v List.mem_cons_self
  apply agree_get
  cases hcallable : s.callable? (args.headD .undefined) with
  | some f =>
    have hsome : (s.callable? (args.headD .undefined)).isSome := by
      rw [hcallable]
      rfl
    apply (obeys_modify (Discipline.Change.makes (.queue htask hsome) rfl)).bind
    intro _ s' _ _
    exact obeys_plain rfl
  | none => exact obeys_raise hc rfl

theorem obeys_makeError (hc : D.Covers s loc) (c : ErrorClass) (args : List Value)
    : Obeys D env s D.Gives (makeError c args loc) := by
  have hnew : ∀ s', D.Covers s' loc → ∀ message, Obeys D env s' D.Gives (do
      let trace := (← Run.get).trace (c.headline message) loc
      return Value.object (← Run.heap loc (Heap.newError c message (some trace)))) := by
    intro s' hc' message
    apply agree_get
    apply Agree.bind (P := fun id h => D.Admits h (.object id))
    . apply obeys_heap hc'
      intro hs
      exact Discipline.ensures_newError hs c message _
    . intro id s'' _ hid
      exact obeys_pure hid
  unfold makeError
  split
  . exact hnew s hc _
  . exact hnew s hc _
  . apply (obeys_display _).bind
    intro message s' hl _
    exact hnew s' (hl.covers hc) message

end Lawful

variable [D.LawfulUnder env.config]

theorem agree_scriptWith {run run' : List Stmt → Run Value} {callSite : Option Location}
    (hrun : ∀ s' stmts, D.Runs s' (Stmt.locationsAll stmts) →
      Agree D env s' D.Gives (run stmts) (run' stmts))
    (hc : D.CoversCall s callSite) (source origin : String)
    : Agree D env s D.Gives (scriptWith run source origin callSite)
        (scriptWith run' source origin callSite) := by
  apply agree_get
  apply agree_modify (Discipline.Change.makes (.script ⟨origin, source⟩) rfl)
  let s' : Session := { s with scripts := s.scripts.push ⟨origin, source⟩ }
  have hscript : s'.script? ⟨s.scripts.size⟩ = some ⟨origin, source⟩ := by
    simp [s', Session.script?]
  have happend : s.scripts.toList <+: s'.scripts.toList := by simp [s']
  have hc' : D.CoversCall s' callSite := by
    intro loc id hid
    exact Discipline.Lawful.code_mono happend (hc loc id hid)
  cases hparse : parse source with
  | error e =>
    intro hs'
    exact obeys_throw (Discipline.Lawful.throws_malformed hs' hscript hparse) hs'
  | ok stmts =>
    intro hs'
    have hcode := Discipline.Lawful.code_script hs' hscript hparse
    exact agree_inFrame (hc' {}) hcode (by simp) hc' (fun s'' _ hr => hrun s'' stmts hr) hs'

variable (hev : ev.Agree D env ev')
include hev

theorem agree_functionBody {body : FunctionBody} (hr : D.Runs s body.locations)
    : Agree D env s D.Gives (functionBody ev body) (functionBody ev' body) := by
  cases body with
  | expr value => exact hev.expr hr
  | block stmts =>
    apply (obeys_hoist hr).bind
    intro _ s' hl _
    exact hev.within.untilReturn trivial (fun _ _ => trivial) (hl.runs hr)

theorem agree_ghostify (hc : D.Covers s loc) (args : List Value)
    : Agree D env s D.Gives (ghostify ev args loc) (ghostify ev' args loc) := by
  apply Agree.bind (P := Any)
  . apply agree_forM
    intro arg _ s₁ hl₁
    apply (obeys_display arg).bind
    intro name s₂ hl₂ _
    have hc₂ := hl₂.covers (hl₁.covers hc)
    apply (obeys_sourceText hc₂ name).bind
    intro source s₃ hl₃ _
    have hcall : D.CoversCall s₃ (some loc) := fun _ => hl₃.covers hc₂
    exact (hev.script hcall source name).discard
  . intro _ s' _ _
    exact obeys_plain rfl

theorem agree_native (hc : D.Covers s loc) (builtin : Builtin) {args : List Value}
    (hargs : ∀ v ∈ args, D.Admits s.heap v)
    : Agree D env s D.Gives (native ev builtin args loc) (native ev' builtin args loc) := by
  cases builtin with
  | print => exact obeys_print args
  | read => exact obeys_read hc args
  | ghostify => exact agree_ghostify hev hc args
  | haunt => exact obeys_haunt hc
  | queueMicrotask => exact obeys_queueMicrotask hc hargs
  | version => exact obeys_plain rfl
  | makeError c => exact obeys_makeError hc c args

theorem agree_callScoped {body body' : ObjectId → FunctionBody → Run Value} {callee : ObjectId}
    {args : List Value} {callSite : Option Location}
    (hbody : ∀ scope s' f, s'.scope? = some scope → D.Runs s' f.locations →
      Agree D env s' D.Gives (body scope f) (body' scope f))
    (hcallee : D.Admits s.heap (.object callee)) (hargs : ∀ v ∈ args, D.Admits s.heap v)
    (hc : D.CoversCall s callSite)
    : Agree D env s D.Gives (callScoped body ev callee args callSite)
        (callScoped body' ev' callee args callSite) := by
  apply agree_get
  cases hcontent : s.heap.content callee with
  | native builtin => exact agree_native hev (hc {}) builtin hargs
  | closure f parent script =>
    intro hs
    have hcode := Discipline.Lawful.code_closure hs hcontent
    revert hs
    apply Agree.bind (P := fun id h => D.Binds h id)
    . apply obeys_heap (hc f.loc)
      intro hs
      exact Discipline.ensures_newCallScope hs hcontent hcallee hargs
    . intro scope s' hl hscope
      have hcode' := Discipline.Lawful.code_mono hl.scripts hcode
      apply agree_inFrame (hl.covers (hc f.loc))
        (Discipline.Lawful.code_subset f.body_locations_subset hcode')
      . rintro _ ⟨⟩
        exact hscope
      . exact hl.coversCall hc
      . exact fun s'' hcurrent hr => hbody scope s'' f.body hcurrent hr
  | _ =>
    apply (obeys_display _).bind
    intro text s' hl _
    exact obeys_raise (hl.covers (hc {})) rfl

theorem agree_callWith {body body' : FunctionBody → Run Value} {callee : ObjectId} {args : List Value}
    {callSite : Option Location}
    (hbody : ∀ s' f, D.Runs s' f.locations → Agree D env s' D.Gives (body f) (body' f))
    (hcallee : D.Admits s.heap (.object callee)) (hargs : ∀ v ∈ args, D.Admits s.heap v)
    (hc : D.CoversCall s callSite)
    : Agree D env s D.Gives (callWith body ev callee args callSite)
        (callWith body' ev' callee args callSite) := by
  rw [callWith_eq, callWith_eq]
  exact agree_callScoped hev (fun _ s' f _ hr => hbody s' f hr) hcallee hargs hc

theorem agree_program {stmts : List Stmt} (hr : D.Runs s (Stmt.locationsAll stmts))
    : Agree D env s D.Gives (program ev stmts) (program ev' stmts) := by
  apply (obeys_hoist hr).bind
  intro _ s₁ hl₁ _
  apply agree_foldlM (Discipline.Lawful.admits_plain rfl)
  intro last st hst s₂ hl₂ hlast
  have hr' := (hl₁.trans hl₂).runs (hr.mono (Stmt.locations_subset_all hst))
  cases st with
  | expr value loc => exact hev.expr hr'.tail
  | _ =>
    apply (hev.stmt hr').discard.bind
    intro _ s₃ hl₃ _
    exact obeys_pure (hl₃.admits hlast)

theorem agree_expr {e : Expr} (hr : D.Runs s e.locations)
    : Agree D env s D.Gives (expr ev e) (expr ev' e) := by
  rw [expr_eq, expr_eq]
  apply agree_nested (hr.covers e.loc_mem_locations)
  exact agree_exprRule hev hr

theorem agree_call {callee : ObjectId} {args : List Value} {callSite : Option Location}
    (hcallee : D.Admits s.heap (.object callee)) (hargs : ∀ v ∈ args, D.Admits s.heap v)
    (hc : D.CoversCall s callSite)
    : Agree D env s D.Gives (call ev callee args callSite) (call ev' callee args callSite) := by
  rw [call_eq, call_eq]
  exact agree_callWith hev (fun _ _ hr => agree_functionBody hev hr) hcallee hargs hc

theorem agree_script {callSite : Option Location} (hc : D.CoversCall s callSite)
    (source origin : String)
    : Agree D env s D.Gives (script ev source origin callSite)
        (script ev' source origin callSite) := by
  rw [script_eq, script_eq]
  exact agree_scriptWith (fun _ _ hr => agree_program hev hr) hc source origin

end Eval

section Evaluation

open Run

variable {D : Discipline} {env : Env} [D.LawfulUnder env.config]

theorem evaluator_agree (fuel : Nat) : (evaluator fuel).Agree D env (evaluator fuel) := by
  -- the rules keep the discipline if the evaluation with less fuel does
  induction fuel with
  | zero =>
    exact ⟨fun _ => obeys_stop _, fun _ => obeys_stop _, fun _ _ _ => obeys_stop _,
      fun _ _ _ => obeys_stop _⟩
  | succ fuel ih =>
    refine ⟨?_, ?_, ?_, ?_⟩
    . intro s e hr
      exact Eval.agree_expr ih hr
    . intro s st hr
      exact Eval.agree_stmt ih hr
    . intro s callee args callSite hcallee hargs hc
      exact Eval.agree_call ih hcallee hargs hc
    . intro s callSite hc source origin
      exact Eval.agree_script ih hc source origin

theorem obeys_call {s : Session} {callee : ObjectId} {args : List Value}
    (hcallee : D.Admits s.heap (.object callee)) (hargs : ∀ v ∈ args, D.Admits s.heap v)
    (hc : D.CoversCall s none)
    : Obeys D env s D.Gives (Run.call callee args) :=
  agree_env ((evaluator_agree env.fuel).call hcallee hargs hc)

theorem obeys_script {s : Session} {callSite : Option Location} (hc : D.CoversCall s callSite)
    (source origin : String)
    : Obeys D env s D.Gives (Run.script source origin callSite) :=
  agree_env ((evaluator_agree env.fuel).script hc source origin)

end Evaluation
end ScriptHost
