import ScriptHost.Proofs.Discipline.Call
import ScriptHost.Proofs.Heap.Budget
import ScriptHost.Proofs.Session.Reachable

/-!
This module contains the limits of sessions. What begins within them stays there, at every moment of it,
and leaves the frames and the number of expressions under evaluation as they were.
-/

namespace ScriptHost

/-- The session that a computation ends with. -/
def Outcome.session? {α : Type} : Outcome α → Option Session
  | .done _ s | .thrown _ s => some s
  | .stopped _ => none

namespace Session

/-- The limits of the stack and of the heap are their own; a new session has them from its host. -/
structure Within (config : Config) (s : Session) : Prop where
  calls : s.stack.depth ≤ s.stack.maxDepth
  expressions : s.expressionDepth ≤ config.maxExpressionDepth
  memory : s.heap.used ≤ s.heap.limit

theorem within_iff {config : Config} {s : Session}
    : s.Within config
        ↔
      s.stack.depth ≤ s.stack.maxDepth ∧ s.expressionDepth ≤ config.maxExpressionDepth ∧
        s.heap.used ≤ s.heap.limit :=
  ⟨fun hs => ⟨hs.calls, hs.expressions, hs.memory⟩, fun ⟨hc, he, hm⟩ => ⟨hc, he, hm⟩⟩

instance (config : Config) (s : Session) : Decidable (s.Within config) :=
  decidable_of_iff _ within_iff.symm

/-- A computation has kept to the limits, has left all that it entered, and has given back no memory. -/
structure Restored (config : Config) (s s' : Session) : Prop where
  stack : s'.stack = s.stack
  expressionDepth : s'.expressionDepth = s.expressionDepth
  used_le : s.heap.used ≤ s'.heap.used
  limit : s'.heap.limit = s.heap.limit
  within : s'.Within config

end Session

namespace Discipline

variable {s s' : Session} {config : Config}

/-- Sessions stay within the limits, and memory is never given back. -/
def limits (config : Config) : Discipline :=
  .invariant (Session.Within config) fun s s' =>
    s.heap.used ≤ s'.heap.used ∧ s'.heap.limit = s.heap.limit

theorem within_store (hs : s.Within config) (op : Heap.Op)
    : (s.heap.used ≤ (op.apply s.heap).used ∧ (op.apply s.heap).limit = s.heap.limit) ∧
        (s.withHeap (op.apply s.heap)).Within config := by
  have hp := Heap.paid_apply op s.heap
  refine ⟨⟨hp.grows, hp.limit⟩, hs.calls, hs.expressions, ?_⟩
  change (op.apply s.heap).used ≤ (op.apply s.heap).limit
  rw [hp.limit]
  exact hp.used_le hs.memory

instance : (limits config).Lawful := by
  apply invariant_lawful
  . exact fun s => ⟨Nat.le_refl _, rfl⟩
  . exact fun s s' s'' hg hg' => ⟨hg.1.trans hg'.1, hg'.2.trans hg.2⟩
  . intro s s' hs hc
    cases hc with
    | @store op _ => exact within_store hs op
    | @const name v _ _ _ =>
      obtain ⟨hgoes, hwithin⟩ := within_store hs (.setProperty s.global name v)
      exact ⟨hgoes, hwithin.calls, hwithin.expressions, hwithin.memory⟩
    | queue | dequeue | script | host =>
      exact ⟨⟨Nat.le_refl _, rfl⟩, hs.calls, hs.expressions, hs.memory⟩

theorem within_moved (hs : s.Within config) {stack : CallStack} {depth : Nat}
    (hm : (limits config).Enters config s stack depth)
    : (s.moved stack depth).Within config := by
  cases hm with
  | expression hdepth => exact ⟨hs.calls, hdepth, hs.memory⟩
  | @frame frame _ _ hpush _ _ _ =>
    refine ⟨?_, hs.expressions, hs.memory⟩
    unfold CallStack.push? at hpush
    split at hpush
    . cases hpush
    . next hroom =>
      cases hpush
      change (s.stack.frames.push frame).size ≤ s.stack.maxDepth
      rw [Array.size_push]
      exact Nat.lt_of_not_le hroom
  | handler _ =>
    refine ⟨?_, hs.expressions, hs.memory⟩
    change (s.stack.frames.modify _ _).size ≤ s.stack.maxDepth
    rw [Array.size_modify]
    exact hs.calls

instance : (limits config).LawfulUnder config where
  enter hs hm := within_moved hs hm
  leave hs _ hl := ⟨hl.goes, hs.calls, hs.expressions, hl.inv.memory⟩
  throws_leave _ _ _ _ := trivial

end Discipline

namespace Run

variable {α : Type} {env : Env} {s : Session} {why : Stop} {x x' : Run α} {P : α → Heap → Prop}

/-- Stop unless the session is within the limits. -/
def watch (why : Stop) : Run Unit := do
  if (← get).Within (← Run.env).config then
    return ()
  else
    stop why

/-- A computation that is watched at its first and at its last moment. -/
def watched (why : Stop) (x : Run α) : Run α := do
  watch why
  let r ← attempt x
  watch why
  ofExcept r

theorem watch_within (hs : s.Within env.config) (why : Stop) : watch why env s = .done () s := by
  change (if s.Within env.config then (pure () : Run Unit) else stop why) env s = _
  rw [if_pos hs]
  rfl

theorem watched_eq (hs : s.Within env.config)
    (hx : ∀ s', (x env s).session? = some s' → s'.Within env.config) (why : Stop)
    : watched why x env s = x env s := by
  unfold watched
  rw [bind_done (watch_within hs why)]
  have hattempt := attempt_eq x env s
  cases hout : x env s with
  | done a s' =>
    rw [hout] at hattempt hx
    rw [bind_done hattempt, bind_done (watch_within (hx s' rfl) why)]
    rfl
  | thrown e s' =>
    rw [hout] at hattempt hx
    rw [bind_done hattempt, bind_done (watch_within (hx s' rfl) why)]
    rfl
  | stopped why' =>
    rw [hout] at hattempt
    exact bind_stopped hattempt _

theorem Agree.restored (hx : Agree (.limits env.config) env s P x x') (hs : s.Within env.config)
    {s' : Session} (hout : (x env s).session? = some s')
    : s.Restored env.config s' := by
  have hk := (hx hs).2
  have hrestored : ∀ {s'}, (Discipline.limits env.config).Leads s s' → s.Restored env.config s' :=
    fun hl => ⟨hl.stack, hl.depth, hl.goes.1, hl.goes.2, hl.inv⟩
  cases hresult : x env s with
  | done a s' =>
    rw [hresult] at hout hk
    cases hout
    exact hrestored hk.1
  | thrown e s' =>
    rw [hresult] at hout hk
    cases hout
    exact hrestored hk.1
  | stopped why =>
    rw [hresult] at hout
    cases hout

/-- It makes no difference to a computation within the limits whether it is watched. -/
theorem Agree.watched (hx : Agree (.limits env.config) env s P x x') (why : Stop)
    : Agree (.limits env.config) env s P (watched why x) x' := by
  intro hs
  have heq : Run.watched why x env s = x env s :=
    watched_eq hs (fun s' hout => (hx.restored hs hout).within) why
  rw [heq]
  exact hx hs

end Run

/--
The evaluation that goes `fuel` rules deep, and stops as soon as a session is out of its limits. It looks
at the session before and after every expression, statement, call and script, and in the frame and at the
depth at which they run. No moment in between is missed, as memory is never given back.
-/
def watchedEvaluator (why : Stop) : (fuel : Nat) → Evaluator
  | 0 => evaluator 0
  | fuel + 1 =>
    let ev := watchedEvaluator why fuel
    {
      expr := fun e =>
        Run.watched why (Eval.nested e.loc (Run.watched why (Eval.exprRule ev e)))
      stmt := fun st => Run.watched why (Eval.stmt ev st)
      call := fun callee args callSite =>
        Run.watched why (Eval.callWith (fun body => Run.watched why (Eval.functionBody ev body))
          ev callee args callSite)
      script := fun source origin callSite =>
        Run.watched why (Eval.scriptWith (fun stmts => Run.watched why (Eval.program ev stmts))
          source origin callSite)
    }

theorem watchedEvaluator_agree (why : Stop) (fuel : Nat) (env : Env)
    : (watchedEvaluator why fuel).Agree (.limits env.config) env (evaluator fuel) := by
  induction fuel with
  | zero => exact evaluator_agree 0
  | succ fuel ih =>
    refine ⟨?_, ?_, ?_, ?_⟩
    . intro s e hr
      apply Run.Agree.watched
      apply Eval.agree_nested (hr.covers e.loc_mem_locations)
      apply Run.Agree.watched
      exact Eval.agree_exprRule ih hr
    . intro s st hr
      exact (Eval.agree_stmt ih hr).watched why
    . intro s callee args callSite hcallee hargs hc
      apply Run.Agree.watched
      apply Eval.agree_callWith ih _ hcallee hargs hc
      intro s' f hr
      exact (Eval.agree_functionBody ih hr).watched why
    . intro s callSite hc source origin
      apply Run.Agree.watched
      apply Eval.agree_scriptWith _ hc source origin
      intro s' stmts hr
      exact (Eval.agree_program ih hr).watched why

/-- What an evaluation can begin with. -/
inductive Entry : Type → Type where
  | expr (e : Expr) : Entry Value
  | stmt (st : Stmt) : Entry Completion
  | block (stmts : List Stmt) : Entry Completion
  | call (callee : ObjectId) (args : List Value) (callSite : Option Location) : Entry Value
  | native (builtin : Builtin) (args : List Value) (loc : Location) : Entry Value
  | script (source origin : String) (callSite : Option Location) : Entry Value

namespace Entry

variable {α : Type}

def run (ev : Evaluator) : Entry α → Run α
  | expr e => ev.expr e
  | stmt st => ev.stmt st
  | block stmts => Eval.block ev stmts
  | call callee args callSite => ev.call callee args callSite
  | native builtin args loc => Eval.native ev builtin args loc
  | script source origin callSite => ev.script source origin callSite

theorem run_agree {ev ev' : Evaluator} {env : Env}
    (hev : ev.Agree (.limits env.config) env ev') (entry : Entry α) (s : Session)
    : Run.Agree (.limits env.config) env s (fun _ _ => True) (entry.run ev) (entry.run ev') := by
  cases entry with
  | expr e => exact (hev.expr trivial).mono fun _ _ _ => trivial
  | stmt st => exact (hev.stmt trivial).mono fun _ _ _ => trivial
  | block stmts => exact (Eval.agree_block hev trivial).mono fun _ _ _ => trivial
  | call callee args callSite =>
    exact hev.call trivial (fun _ _ => trivial) fun _ _ _ => trivial
  | native builtin args loc =>
    exact Eval.agree_native hev (fun _ _ => trivial) builtin fun _ _ => trivial
  | script source origin callSite =>
    exact hev.script (fun _ _ _ => trivial) source origin

end Entry

/-- What is kept by every operation holds of the heap of a new session. -/
theorem Heap.kept_newGlobal {R : Heap → Prop} (hkept : ∀ (op : Op) h, R h → R (op.apply h)) {h : Heap}
    (hR : R h)
    : R (exec newGlobal h).2 := by
  have hglobal : Ensures R (fun _ _ => True) newGlobal h := by
    apply ensures_newGlobal (V := fun _ _ => True)
    . exact ⟨hkept (.allocate .global) h hR, fun _ _ => trivial⟩
    . intro id h' hR' _ builtin
      exact ⟨hkept (.allocate (.native builtin)) h' hR', fun _ _ => ⟨trivial, trivial⟩⟩
    . intro id h' hR' _ key v _
      exact ⟨hkept (.setProperty id key v) h' hR', fun _ _ => trivial⟩
    . exact fun _ _ => trivial
  exact hglobal.1

namespace Session

/-- A script that cannot be read is registered, and nothing else is done. -/
theorem script_malformed {source : String} {e : SyntaxError} (hparse : parse source = .error e)
    (fuel : Nat) (origin : String) (callSite : Option Location) (env : Env) (s : Session)
    : (evaluator (fuel + 1)).script source origin callSite env s
        =
      .thrown ⟨⟨.malformed e.fault.message, e.loc⟩, some ⟨⟨s.scripts.size⟩, e.loc⟩, none⟩
        { s with scripts := s.scripts.push ⟨origin, source⟩ } := by
  change Eval.scriptWith _ source origin callSite env s = _
  unfold Eval.scriptWith
  rw [Run.bind_done (rfl : Run.get env s = .done s s)]
  rw [hparse]
  rfl

theorem start_within {config : Config} {s : Session} (hstart : Session.start config = .ok s)
    : s.Within config ∧ s.stack.maxDepth = config.maxCallDepth ∧
        s.heap.limit = config.heapLimit := by
  let R (h : Heap) : Prop := h.limit = config.heapLimit ∧ h.used ≤ h.limit
  have hkept : ∀ (op : Heap.Op) h, R h → R (op.apply h) := by
    rintro op h ⟨hlimit, hused⟩
    have hp := Heap.paid_apply op h
    refine ⟨hp.limit.trans hlimit, ?_⟩
    rw [hp.limit]
    exact hp.used_le hused
  have hglobal : R (Heap.exec Heap.newGlobal (.empty config.heapLimit)).2 :=
    Heap.kept_newGlobal hkept ⟨rfl, Nat.zero_le _⟩
  obtain ⟨global, -, rfl⟩ := start_eq hstart
  exact ⟨⟨Nat.zero_le _, Nat.zero_le _, hglobal.2⟩, rfl, hglobal.1⟩

/--
Whatever begins within the limits stays there: it makes no difference to it whether it is stopped as soon
as it is out of them. If it ends, it ends in the same frames, with the same scopes, and with as many
expressions under evaluation. A script that cannot be read is only registered.
-/
theorem entry_restored {α : Type} {env : Env} {s : Session} (hs : s.Within env.config)
    (entry : Entry α) (fuel : Nat)
    : (∀ why, entry.run (watchedEvaluator why fuel) env s = entry.run (evaluator fuel) env s)
        ∧ (∀ s', (entry.run (evaluator fuel) env s).session? = some s' → s.Restored env.config s')
        ∧ ∀ source origin callSite e, parse source = .error e → 0 < fuel →
            (Entry.script source origin callSite).run (evaluator fuel) env s
              =
            .thrown ⟨⟨.malformed e.fault.message, e.loc⟩, some ⟨⟨s.scripts.size⟩, e.loc⟩, none⟩
              { s with scripts := s.scripts.push ⟨origin, source⟩ } := by
  have hagree := entry.run_agree (evaluator_agree (D := .limits env.config) fuel) s
  refine ⟨?_, ?_, ?_⟩
  . intro why
    exact (entry.run_agree (watchedEvaluator_agree why fuel env) s hs).1
  . intro s' hout
    exact hagree.restored hs hout
  . intro source origin callSite e hparse hfuel
    obtain ⟨fuel, rfl⟩ := Nat.exists_eq_succ_of_ne_zero (Nat.ne_of_gt hfuel)
    exact script_malformed hparse fuel origin callSite env s

/-- A host under which no more than three calls may be running at once. -/
def shallowEnv : Env :=
  ⟨{ maxCallDepth := 3 }, .unknown, 100⟩

/-- What becomes of a script with a function that calls itself in any case. -/
def overflow? : Option (Session × Exception × Session) :=
  match Session.start shallowEnv.config with
  | .ok s =>
    let entry := Entry.script "function f() \x7b return f(); \x7d f();" "a.js" none
    match entry.run (evaluator 100) shallowEnv s with
    | .thrown e s' => some (s, e, s')
    | _ => none
  | .error _ => none

theorem overflow_cause : ∃ p, overflow? = some p ∧ p.2.1.fault.cause = .stackOverflow := by
  decide +kernel

/-- The calls that were running when there was no room for one more have all been left. -/
theorem overflow_restored
    : ∃ s e s', Session.start shallowEnv.config = .ok s
        ∧ (Entry.script "function f() \x7b return f(); \x7d f();" "a.js" none).run (evaluator 100)
            shallowEnv s = .thrown e s'
        ∧ e.fault.cause = .stackOverflow
        ∧ s.Within shallowEnv.config ∧ s.Restored shallowEnv.config s' := by
  obtain ⟨⟨s, e, s'⟩, hoverflow, hcause⟩ := overflow_cause
  unfold overflow? at hoverflow
  split at hoverflow
  . next s hstart =>
    dsimp only at hoverflow
    split at hoverflow
    . next hthrown =>
      cases hoverflow
      have hs := (start_within hstart).1
      refine ⟨s, e, s', hstart, hthrown, hcause, hs, ?_⟩
      exact (entry_restored hs _ 100).2.1 s' (by rw [hthrown]; rfl)
    . cases hoverflow
  . cases hoverflow

end Session
end ScriptHost
