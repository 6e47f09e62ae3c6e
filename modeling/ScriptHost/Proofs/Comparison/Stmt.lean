import ScriptHost.Proofs.Comparison.Expr
import ScriptHost.Proofs.Discipline.Stmt

/-!
This module contains that the rules for statements match in any lawful comparison, if the evaluations of
their parts do. A statement ends with the jumps only that it may contain. What a `try` attempts has to match
without excuses, as its exceptions are not seen from outside.
-/

namespace ScriptHost

theorem Completion.allowed_loopEnd? {jumps : Jumps} {completion : Completion}
    (hcompletion : completion.Allowed { jumps with inLoop := true })
    : ∀ last ∈ completion.loopEnd?, last.Allowed jumps := by
  intro last hlast
  cases completion with
  | normal | «continue» => cases hlast
  | «break» =>
    cases hlast
    trivial
  | «return» v =>
    cases hlast
    exact hcompletion

namespace Run

variable {C : Comparison} {s : Session}

theorem matches_exceptionValue (caught : Exception)
    : Matches C C.Excuses s Free (exceptionValue caught) (exceptionValue caught) := by
  by_cases hcause : ∃ v text, caught.fault.cause = .thrown v text
  . obtain ⟨v, text, hcause⟩ := hcause
    rw [exceptionValue_thrown hcause]
    exact matches_pure trivial
  . simp only [not_exists] at hcause
    rw [exceptionValue_failure hcause]
    apply (matches_heap (Heap.lifts_newError _ _ _) (Heap.keeps_newError _ _ _) _).bind
    exact fun _ _ _ _ => matches_pure trivial

end Run

namespace Eval

open Run

/-- The statements of a `try` with its handler are attempted, and its finalizer is executed in any case. -/
def tryWith (ev : Evaluator) (attempted : Run Completion) (finalizer : Option (List Stmt)) :
    Run Completion := do
  let result ← Run.attempt attempted
  match ← block? ev finalizer with
  | .normal => Run.ofExcept result
  | completion => return completion

/-- Execute a statement, where `guard` puts something around what a `try` attempts. -/
def stmtWith (guard : Run Completion → Run Completion) (ev : Evaluator) (st : Stmt) :
    Run Completion :=
  match st with
  | .try stmts handler finalizer _ => tryWith ev (guard (guarded ev stmts handler)) finalizer
  | st => stmt ev st

theorem stmt_eq (ev : Evaluator) (st : Stmt) : stmt ev st = stmtWith id ev st := by
  cases st <;> rfl

variable {C : Comparison} {Excused : Exception → Prop} {n : Nat} {ev ev' : Evaluator} {s : Session}
  {jumps : Jumps}

theorem matches_inScope {x x' : Run Completion} {P : Completion → Prop} {scope : ObjectId}
    (hx : ∀ s', s.Stays s' → Matches C Excused s' (fun completion _ => P completion) x x')
    : Matches C Excused s (fun completion _ => P completion) (inScope scope x) (inScope scope x') := by
  apply matches_get
  rw [show (C.image s).scope? = s.scope? from rfl]
  have hleave : ∀ s' : Session,
      s'.stack = (s.stack.modifyCurrent fun frame => { frame with scope := some scope }) →
      s'.expressionDepth = s.expressionDepth →
        { s' with stack := s'.stack.modifyCurrent fun frame => { frame with scope := s.scope? } }
          = s'.moved s.stack s.expressionDepth := by
    intro s' hstack hdepth
    have hrestored := s.stack.modifyCurrent_scope (some scope)
    rw [← hstack] at hrestored
    unfold Session.moved
    rw [← hdepth]
    exact congrArg (fun stack => { s' with stack := stack }) hrestored
  apply matches_moved rfl rfl hleave
  . intro s' hstack hdepth
    rw [← hleave s' hstack hdepth]
    rfl
  . apply hx
    have hscript := s.stack.script_modifyCurrent (some scope)
    have hdepth : (s.stack.modifyCurrent fun frame => { frame with scope := some scope }).depth
        = s.stack.depth := Array.size_modify
    exact ⟨hscript, hdepth, rfl, List.prefix_rfl⟩

theorem matches_enter (handler : Handler) (caught : Exception)
    : Matches C C.Excuses s Free (enter handler caught) (enter handler caught) := by
  rw [enter_eq]
  apply (matches_exceptionValue caught).bind
  intro v s' _ _
  unfold paramScope
  cases handler.param with
  | none => exact matches_pure trivial
  | some param =>
    apply matches_get
    rw [show (C.image s').scope? = s'.scope? from rfl]
    have hcontent : Heap.Keeps (C.Known s'.scripts)
        (Heap.allocate (.scope s'.scope? #[⟨param, v, true⟩])) :=
      Heap.keeps_allocate fun _ _ _ => nofun
    apply (matches_heap (Heap.lifts_allocate _) hcontent _).bind
    exact fun _ _ _ _ => matches_pure trivial

variable [C.Lawful] (hev : ev.Matches C n ev')
include hev

theorem matches_block {stmts : List Stmt} (hr : ∀ st ∈ stmts, C.Runs n s (.stmt jumps st))
    : Matches C Excused s (fun completion _ => completion.Allowed jumps) (block ev stmts)
        (block ev' stmts) := by
  induction stmts generalizing s with
  | nil => exact matches_pure trivial
  | cons st stmts ih =>
    apply (hev.stmt (hr st List.mem_cons_self)).bind
    intro completion s' hl hcompletion
    cases completion with
    | normal => exact ih fun st' hst' => (hr st' (List.mem_cons_of_mem _ hst')).leads hl
    | _ => exact matches_pure hcompletion

theorem matches_block? {stmts : Option (List Stmt)}
    (hr : ∀ st ∈ stmts.getD [], C.Runs n s (.stmt jumps st))
    : Matches C Excused s (fun completion _ => completion.Allowed jumps) (block? ev stmts)
        (block? ev' stmts) := by
  cases stmts with
  | some stmts => exact matches_block hev hr
  | none => exact matches_pure trivial

omit [C.Lawful] in
theorem matches_declarator {d : Declarator} (hr : ∀ e ∈ d.init, C.Runs n s (.expr e))
    (kind : DeclareKind)
    : Matches C C.Excuses s Free (declarator ev kind d) (declarator ev' kind d) := by
  unfold declarator
  cases hd : d.init with
  | some init =>
    rw [hd] at hr
    cases kind with
    | var =>
      apply (hev.expr (hr init rfl)).bind
      exact fun v _ _ _ => matches_writeVariable d.name v
    | «let» | const =>
      apply (hev.expr (hr init rfl)).bind
      exact fun v _ _ _ => matches_declare _ d.name v
  | none =>
    cases kind with
    | var => exact matches_pure trivial
    | «let» | const => exact matches_declare _ d.name .undefined

section Loops

variable {body : List Stmt} (hfuel : C.mayRunOut)
  (hbody : ∀ st ∈ body, C.Runs n s (.stmt { jumps with inLoop := true } st))
include hfuel hbody

theorem matches_whileLoop {condition : Expr} (hcondition : C.Runs n s (.expr condition))
    : Matches C Excused s (fun completion _ => completion.Allowed jumps)
        (whileLoop ev condition body) (whileLoop ev' condition body) := by
  apply matches_untilSome hfuel
  intro s₁ hl₁
  apply (hev.expr (hcondition.leads hl₁)).bind
  intro v s₂ hl₂ _
  split
  . apply (matches_block hev fun st hst => (hbody st hst).leads (hl₁.trans hl₂)).bind
    exact fun completion s₃ _ hcompletion => matches_pure (Completion.allowed_loopEnd? hcompletion)
  . apply matches_pure
    rintro _ ⟨⟩
    trivial

theorem matches_doWhileLoop {condition : Expr} (hcondition : C.Runs n s (.expr condition))
    : Matches C Excused s (fun completion _ => completion.Allowed jumps)
        (doWhileLoop ev body condition) (doWhileLoop ev' body condition) := by
  apply matches_untilSome hfuel
  intro s₁ hl₁
  apply (matches_block hev fun st hst => (hbody st hst).leads hl₁).bind
  intro completion s₂ hl₂ hcompletion
  have hend := Completion.allowed_loopEnd? hcompletion
  cases hloop : completion.loopEnd? with
  | some last =>
    rw [hloop] at hend
    exact matches_pure hend
  | none =>
    apply (hev.expr (hcondition.leads (hl₁.trans hl₂))).bind
    intro v s₃ _ _
    split
    . exact matches_pure nofun
    . apply matches_pure
      rintro _ ⟨⟩
      trivial

omit [C.Lawful] hfuel hbody in
theorem matches_holds {condition : Option Expr} (hr : ∀ e ∈ condition, C.Runs n s (.expr e))
    : Matches C Excused s Free (holds ev condition) (holds ev' condition) := by
  cases condition with
  | some condition =>
    apply (hev.expr (hr condition rfl)).bind
    exact fun _ _ _ _ => matches_pure trivial
  | none => exact matches_pure trivial

theorem matches_forLoop {condition next : Option Expr}
    (hcondition : ∀ e ∈ condition, C.Runs n s (.expr e)) (hnext : ∀ e ∈ next, C.Runs n s (.expr e))
    : Matches C Excused s (fun completion _ => completion.Allowed jumps)
        (forLoop ev condition next body) (forLoop ev' condition next body) := by
  apply matches_untilSome hfuel
  intro s₁ hl₁
  apply (matches_holds hev fun e he => (hcondition e he).leads hl₁).bind
  intro holds s₂ hl₂ _
  have hl := hl₁.trans hl₂
  split
  . apply (matches_block hev fun st hst => (hbody st hst).leads hl).bind
    intro completion s₃ hl₃ hcompletion
    have hend := Completion.allowed_loopEnd? hcompletion
    cases hloop : completion.loopEnd? with
    | some last =>
      rw [hloop] at hend
      exact matches_pure hend
    | none =>
      cases next with
      | some next =>
        apply (hev.expr ((hnext next rfl).leads (hl.trans hl₃))).discard.bind
        exact fun _ _ _ _ => matches_pure nofun
      | none => exact matches_pure nofun
  . apply matches_pure
    rintro _ ⟨⟩
    trivial

end Loops

theorem matches_handle {handler : Handler} (caught : Exception)
    (hr : ∀ st ∈ handler.body, C.Runs n s (.stmt jumps st))
    : Matches C C.Excuses s (fun completion _ => completion.Allowed jumps) (handle ev handler caught)
        (handle ev' handler caught) := by
  rw [handle_eq, handle_eq]
  apply (matches_enter handler caught).bind
  intro scope s' hl _
  have hr' : ∀ st ∈ handler.body, C.Runs n s' (.stmt jumps st) := fun st hst => (hr st hst).leads hl
  cases scope with
  | none => exact matches_block hev hr'
  | some scope =>
    apply matches_inScope
    exact fun s'' hs => matches_block hev fun st hst => (hr' st hst).stays hs

theorem matches_guarded {stmts : List Stmt} {handler : Option Handler}
    (hstmts : ∀ st ∈ stmts, C.Runs n s (.stmt jumps st))
    (hhandler : ∀ st ∈ (handler.map Handler.body).getD [], C.Runs n s (.stmt jumps st))
    : Matches C C.Excuses s (fun completion _ => completion.Allowed jumps) (guarded ev stmts handler)
        (guarded ev' stmts handler) := by
  apply matches_get
  rw [show (C.image s).stack.depth = s.stack.depth from rfl]
  apply (matches_block hev hstmts).attempt
  . intro completion s' _ hcompletion
    cases handler <;> exact matches_pure hcompletion
  . intro e s₁ hl₁
    cases handler with
    | none => exact matches_throw e
    | some handler =>
      have hstack : { s₁ with stack := s₁.stack.truncate s.stack.depth } = s₁ := by
        rw [← hl₁.stack, CallStack.truncate_depth]
      let g (s' : Session) : Session := { s' with stack := s'.stack.truncate s.stack.depth }
      have hg : Matches C C.Excuses s₁ (fun _ s' => s' = g s₁) (modify g) (modify g) := by
        refine matches_modify (fun hs => ?_) rfl
        change C.Leads s₁ { s₁ with stack := s₁.stack.truncate s.stack.depth }
        rw [hstack]
        exact Comparison.leads_refl hs
      apply hg.bind
      intro _ s₂ hl₂ _
      exact matches_handle hev e fun st hst => (hhandler st hst).leads (hl₁.trans hl₂)

theorem matches_tryWith {x x' : Run Completion} {finalizer : Option (List Stmt)}
    (hx : Matches C Never s (fun completion _ => completion.Allowed jumps) x x')
    (hfinalizer : ∀ st ∈ finalizer.getD [], C.Runs n s (.stmt jumps st))
    : Matches C Excused s (fun completion _ => completion.Allowed jumps) (tryWith ev x finalizer)
        (tryWith ev' x' finalizer) := by
  apply hx.attempt
  . intro completion s₁ hl₁ hcompletion
    apply (matches_block? hev fun st hst => (hfinalizer st hst).leads hl₁).bind
    intro last s₂ _ hlast
    cases last with
    | normal => exact matches_pure hcompletion
    | _ => exact matches_pure hlast
  . intro e s₁ hl₁
    apply (matches_block? hev fun st hst => (hfinalizer st hst).leads hl₁).bind
    intro last s₂ _ hlast
    cases last with
    | normal => exact matches_throw e
    | _ => exact matches_pure hlast

theorem matches_stmtWith {guard guard' : Run Completion → Run Completion}
    (hguard : ∀ {s : Session} {x x' : Run Completion},
      Matches C C.Excuses s (fun completion _ => completion.Allowed jumps) x x' →
        Matches C Never s (fun completion _ => completion.Allowed jumps) (guard x) (guard' x'))
    {st : Stmt} (hr : C.Runs (n + 1) s (.stmt jumps st))
    : Matches C C.Excuses s (fun completion _ => completion.Allowed jumps) (stmtWith guard ev st)
        (stmtWith guard' ev' st) := by
  have hstmts : ∀ {jumps'} {stmts : List Stmt},
      (∀ p ∈ stmts.map (.stmt jumps'), p ∈ (Code.stmt jumps st).parts) →
        ∀ st' ∈ stmts, C.Runs n s (.stmt jumps' st') := fun hparts st' hst' =>
    hr.part (hparts _ (List.mem_map_of_mem hst'))
  have hloop : st.isLoop → C.mayRunOut := Comparison.Lawful.mayRunOut_of_loop hr.2
  cases st with
  | declare kind declarators loc =>
    apply Matches.bind
    . apply matches_forM (I := fun _ => True) trivial
      intro d hd s' hl _
      apply matches_declarator hev
      intro e he
      exact (hr.leads hl).part (List.mem_map_of_mem (List.mem_filterMap.2 ⟨d, hd, he⟩))
    . exact fun _ _ _ _ => matches_pure trivial
  | function _ | empty _ => exact matches_pure trivial
  | «break» _ | «continue» _ => exact matches_pure hr.1
  | «return» value loc =>
    cases value with
    | some value =>
      apply (hev.expr (hr.part (List.mem_singleton_self _))).bind
      exact fun v s' _ _ => matches_pure hr.1.1
    | none => exact matches_pure hr.1.1
  | «if» condition thenBranch elseBranch loc =>
    apply (hev.expr (hr.part List.mem_cons_self)).bind
    intro v s' hl _
    have hmem : ∀ st' ∈ thenBranch ++ elseBranch.getD [], C.Runs n s' (.stmt jumps st') :=
      fun st' hst' => (hr.leads hl).part (List.mem_cons_of_mem _ (List.mem_map_of_mem hst'))
    split
    . exact matches_block hev fun st' hst' => hmem st' (List.mem_append_left _ hst')
    . exact matches_block? hev fun st' hst' => hmem st' (List.mem_append_right _ hst')
  | «while» condition body loc =>
    have hbody := hstmts fun p hp => List.mem_cons_of_mem _ hp
    exact matches_whileLoop hev (hloop rfl) hbody (hr.part List.mem_cons_self)
  | doWhile body condition loc =>
    have hbody := hstmts fun p hp => List.mem_cons_of_mem _ hp
    exact matches_doWhileLoop hev (hloop rfl) hbody (hr.part List.mem_cons_self)
  | «for» init condition update body loc =>
    have hturns : ∀ s', C.Leads s s' → Matches C C.Excuses s'
        (fun completion _ => completion.Allowed jumps) (forLoop ev condition update body)
        (forLoop ev' condition update body) := by
      intro s' hl
      apply matches_forLoop hev (hloop rfl)
      . exact fun st' hst' => (hstmts (fun p hp => List.mem_append_right _ hp) st' hst').leads hl
      . intro e he
        refine (hr.leads hl).part (List.mem_append_left _ (List.mem_append_left _ ?_))
        exact List.mem_append_right _ (List.mem_map_of_mem (Option.mem_toList.2 he))
      . intro e he
        refine (hr.leads hl).part (List.mem_append_left _ (List.mem_append_right _ ?_))
        exact List.mem_map_of_mem (Option.mem_toList.2 he)
    cases init with
    | some init =>
      apply (hev.stmt (hr.part List.mem_cons_self)).discard.bind
      exact fun _ s' hl _ => hturns s' hl
    | none =>
      intro hs
      exact hturns s (Comparison.leads_refl hs) hs
  | throw value loc =>
    apply (hev.expr (hr.part (List.mem_singleton_self _))).bind
    exact fun v s' _ hc => matches_throwValue hc v loc
  | «try» stmts handler finalizer loc =>
    have hmem : ∀ st' ∈ stmts ++ (handler.map Handler.body).getD [] ++ finalizer.getD [],
        C.Runs n s (.stmt jumps st') := hstmts fun p hp => hp
    refine matches_tryWith hev (hguard (matches_guarded hev ?_ ?_)) ?_
    . exact fun st' hst' => hmem st' (List.mem_append_left _ (List.mem_append_left _ hst'))
    . exact fun st' hst' => hmem st' (List.mem_append_left _ (List.mem_append_right _ hst'))
    . exact fun st' hst' => hmem st' (List.mem_append_right _ hst')
  | block stmts loc => exact matches_block hev (hstmts fun p hp => hp)
  | expr value loc =>
    apply (hev.expr (hr.part (List.mem_singleton_self _))).discard.bind
    exact fun _ _ _ _ => matches_pure trivial

/-- Without more memory, nothing has to be put around what a `try` attempts. -/
theorem matches_stmt (hmemory : C.memory = 0) {st : Stmt} (hr : C.Runs (n + 1) s (.stmt jumps st))
    : Matches C Excused s (fun completion _ => completion.Allowed jumps) (stmt ev st) (stmt ev' st) := by
  rw [stmt_eq, stmt_eq]
  have hguard : ∀ {s : Session} {x x' : Run Completion},
      Matches C C.Excuses s (fun completion _ => completion.Allowed jumps) x x' →
        Matches C Never s (fun completion _ => completion.Allowed jumps) (id x) (id x') :=
    fun hx => hx.strict hmemory
  exact (matches_stmtWith hev hguard hr).strict hmemory

end Eval
end ScriptHost
