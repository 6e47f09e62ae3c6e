import ScriptHost.Proofs.Queue.Stmt

/-!
This module contains that the whole evaluation is traced: the only computation that makes a function wait is
`queueMicrotask`, and it is called at the gate.
-/

namespace ScriptHost

namespace Eval

open Run

theorem traced_sourceText (name : String) (loc : Location) : Traced fun _ => sourceText name loc := by
  apply (traced_load name).bind
  intro answer
  cases answer with
  | ok text => exact traced_pure text
  | error _ => exact traced_raise _ loc

theorem traced_read (args : List Value) (loc : Location) : Traced fun _ => read args loc := by
  unfold read
  split
  . next name =>
    apply (traced_display name).bind
    intro text
    exact (traced_sourceText text loc).bind fun _ => traced_pure _
  . exact traced_raise _ loc

theorem traced_printArgs (args : List Value) : Traced fun _ => print args := by
  apply (traced_mapM fun v => traced_display v).bind
  intro texts
  exact (traced_print _).bind fun _ => traced_pure _

theorem traced_haunt (loc : Location) : Traced fun _ => haunt loc := by
  apply traced_get.bind
  intro s
  dsimp only
  refine .bind (traced_modify ?_) fun _ => ?_
  . exact fun _ => ⟨rfl, rfl⟩
  . cases (s.profiler.haunt s.heap s.roots).1 with
    | ok report => exact (traced_print _).bind fun _ => traced_pure _
    | error miss => exact traced_raise _ loc

theorem traced_makeError (c : ErrorClass) (args : List Value) (loc : Location)
    : Traced fun _ => makeError c args loc := by
  have hnew : ∀ message, Traced fun _ => do
      let trace := (← Run.get).trace (c.headline message) loc
      return Value.object (← Run.heap loc (Heap.newError c message (some trace))) := by
    intro message
    exact traced_get.bind fun _ => (traced_heap loc _).bind fun _ => traced_pure _
  unfold makeError
  split
  . exact hnew ""
  . exact hnew ""
  . exact (traced_display _).bind hnew

theorem traced_inFrame {α : Type} {x : Gate → Run α} (hx : Traced x) (frame : Frame) (loc : Location)
    : Traced fun gate => inFrame frame loc (x gate) := by
  apply traced_get.bind
  intro s
  dsimp only
  cases s.stack.push? frame with
  | some stack => exact traced_moved hx (fun _ => ⟨rfl, rfl⟩) fun _ => ⟨rfl, rfl⟩
  | none => exact traced_raise _ loc

variable {ev : Gate → Evaluator} (hev : Evaluator.Traced ev)
include hev

theorem traced_ghostify (args : List Value) (loc : Location)
    : Traced fun gate => ghostify (ev gate) args loc := by
  apply Traced.bind
  . apply traced_forM
    intro arg
    apply (traced_display arg).bind
    intro name
    apply (traced_sourceText name loc).bind
    intro source
    exact (hev.script source name (some loc)).discard
  . intro _
    exact traced_pure _

theorem traced_native {builtin : Builtin} (hbuiltin : builtin ≠ .queueMicrotask) (args : List Value)
    (loc : Location)
    : Traced fun gate => native (ev gate) builtin args loc := by
  cases builtin with
  | print => exact traced_printArgs args
  | read => exact traced_read args loc
  | ghostify => exact traced_ghostify hev args loc
  | haunt => exact traced_haunt loc
  | queueMicrotask => exact absurd rfl hbuiltin
  | version => exact traced_pure _
  | makeError c => exact traced_makeError c args loc

theorem traced_untilReturn (stmts : List Stmt) : Traced fun gate => untilReturn (ev gate) stmts := by
  induction stmts with
  | nil => exact traced_pure _
  | cons st stmts ih =>
    apply (hev.stmt st).bind
    intro completion
    cases completion with
    | «return» v => exact traced_pure v
    | _ => exact ih

theorem traced_functionBody (body : FunctionBody) : Traced fun gate => functionBody (ev gate) body := by
  cases body with
  | expr value => exact hev.expr value
  | block stmts => exact (traced_hoist stmts).bind fun _ => traced_untilReturn hev stmts

theorem traced_program (stmts : List Stmt) : Traced fun gate => program (ev gate) stmts := by
  apply (traced_hoist stmts).bind
  intro _
  apply traced_foldlM
  intro last st
  cases st with
  | expr value => exact hev.expr value
  | _ => exact (hev.stmt _).discard.bind fun _ => traced_pure _

theorem traced_script (source origin : String) (callSite : Option Location)
    : Traced fun gate => script (ev gate) source origin callSite := by
  apply traced_get.bind
  intro s
  refine .bind (traced_modify ?_) fun _ => ?_
  . exact fun _ => ⟨rfl, rfl⟩
  . cases parse source with
    | error e => exact traced_throw _
    | ok stmts => exact traced_inFrame (traced_program hev stmts) _ _

omit hev in
/-- A function that is called to wait is the last one to wait afterwards. -/
theorem tracedAt_queueMicrotask {env : Env} {s : Session} {callee : ObjectId}
    (hcontent : s.heap.content callee = .native .queueMicrotask) (args : List Value)
    (callSite : Option Location)
    : TracedAt env s fun gate => gated gate callee args (call (ev gate) callee args callSite) := by
  have hcall : ∀ gate, call (ev gate) callee args callSite env s
      = queueMicrotask args (callSite.getD {}) env s := by
    intro gate
    unfold call
    rw [bind_done (rfl : Run.get env s = .done s s), hcontent]
    rfl
  cases hcallable : s.callable? (args.headD .undefined) with
  | none =>
    -- the gate is not asked about what cannot be called
    have hqueued : s.queued? callee args = none := by
      simp only [Session.queued?, hcontent, Option.filter_some, hcallable]
      rfl
    have hraise : Traced fun _ => (Run.raise (.host .typeError
        "The \"callback\" argument must be of type function") (callSite.getD {}) : Run Value) :=
      traced_raise _ _
    apply (hraise env s).congr
    intro gate
    rw [gated_of_none hqueued, hcall]
    unfold queueMicrotask
    rw [bind_done (rfl : Run.get env s = .done s s), hcallable]
  | some f =>
    have hqueued : s.queued? callee args = some (args.headD .undefined) := by
      simp only [Session.queued?, hcontent, Option.filter_some, hcallable]
      rfl
    let s' : Session := { s with microtasks := s.microtasks ++ [args.headD .undefined] }
    have hdone : queueMicrotask args (callSite.getD {}) env s = .done .undefined s' := by
      unfold queueMicrotask
      rw [bind_done (rfl : Run.get env s = .done s s), hcallable]
      rfl
    refine ⟨[⟨s, args.headD .undefined⟩], .done .undefined s', ?_, ?_⟩
    . intro gate
      refine (gated_of_some hqueued gate _).trans ?_
      rw [hcall, hdone]
    . rintro _ ⟨⟩
      refine ⟨⟨rfl, ?_, trivial⟩, rfl, rfl⟩
      rw [hcallable]
      rfl

theorem traced_call (callee : ObjectId) (args : List Value) (callSite : Option Location)
    : Traced fun gate => gated gate callee args (call (ev gate) callee args callSite) := by
  intro env s
  by_cases hqueue : s.heap.content callee = .native .queueMicrotask
  . exact tracedAt_queueMicrotask hqueue args callSite
  . have hqueued : s.queued? callee args = none := by
      unfold Session.queued?
      split
      . next hcontent => exact absurd hcontent hqueue
      . rfl
    have hrule : TracedAt env s fun gate => call (ev gate) callee args callSite := by
      cases hcontent : s.heap.content callee with
      | native builtin =>
        have hbuiltin : builtin ≠ .queueMicrotask := by
          rintro rfl
          exact hqueue hcontent
        apply (traced_native hev hbuiltin args (callSite.getD {}) env s).congr
        intro gate
        unfold call
        rw [bind_done (rfl : Run.get env s = .done s s), hcontent]
      | closure f parent script =>
        have hclosure : Traced fun gate => callClosure (ev gate) callee f parent script args callSite :=
          (traced_heap _ _).bind fun _ => traced_inFrame (traced_functionBody hev f.body) _ _
        apply (hclosure env s).congr
        intro gate
        unfold call
        rw [bind_done (rfl : Run.get env s = .done s s), hcontent]
      | _ =>
        have hraise : Traced fun _ => (do
            Run.raise (.notCallable (← Run.display (.object callee))) (callSite.getD {}) : Run Value) :=
          (traced_display _).bind fun _ => traced_raise _ _
        apply (hraise env s).congr
        intro gate
        unfold call
        rw [bind_done (rfl : Run.get env s = .done s s), hcontent]
    exact hrule.congr fun gate => gated_of_none hqueued gate _

end Eval

theorem gatedEvaluator_traced (fuel : Nat) : Evaluator.Traced fun gate => gatedEvaluator gate fuel := by
  induction fuel with
  | zero =>
    exact ⟨fun _ => Run.traced_stop _, fun _ => Run.traced_stop _, fun _ _ _ => Run.traced_stop _,
      fun _ _ _ => Run.traced_stop _⟩
  | succ fuel ih =>
    refine ⟨?_, ?_, ?_, ?_⟩
    . exact Eval.traced_expr ih
    . exact Eval.traced_stmt ih
    . exact Eval.traced_call ih
    . exact Eval.traced_script ih

end ScriptHost
