import ScriptHost.Proofs.Comparison.Stmt
import ScriptHost.Proofs.Discipline.Call

/-!
This module contains that calls and scripts match in any lawful comparison, if the evaluations of their parts
do. A call is of a function that is known, and the sources that scripts run are those that the host has.
-/

namespace ScriptHost
namespace Eval

open Run

variable {α : Type} {C : Comparison} {Excused : Exception → Prop} {n : Nat} {ev ev' : Evaluator}
  {s : Session} {loc : Location}

/-- Execute the statements of a function, where `check` looks at how each of them ends. -/
def untilReturnWith (check : Completion → Run PUnit) (ev : Evaluator) : List Stmt → Run Value
  | [] => return .undefined
  | stmt :: stmts => do
    let completion ← ev.stmt stmt
    check completion
    match completion with
    | .return v => return v
    | _ => untilReturnWith check ev stmts

def functionBodyWith (check : Completion → Run PUnit) (ev : Evaluator) : FunctionBody → Run Value
  | .expr value => ev.expr value
  | .block stmts => do
    hoist stmts
    untilReturnWith check ev stmts

theorem untilReturn_eq (ev : Evaluator) (stmts : List Stmt)
    : untilReturn ev stmts = untilReturnWith (fun _ => pure ⟨⟩) ev stmts := by
  induction stmts with
  | nil => rfl
  | cons st stmts ih =>
    unfold untilReturn untilReturnWith
    rw [ih]
    rfl

theorem functionBody_eq (ev : Evaluator) (body : FunctionBody)
    : functionBody ev body = functionBodyWith (fun _ => pure ⟨⟩) ev body := by
  cases body with
  | expr value => rfl
  | block stmts => exact congrArg (hoist stmts >>= fun _ => ·) (untilReturn_eq ev stmts)

/-- Execute the statements of a script, where `check` looks at how each of them ends. -/
def programWith (check : Completion → Run PUnit) (ev : Evaluator) (stmts : List Stmt) :
    Run Value := do
  hoist stmts
  stmts.foldlM (fun last st => do
    match st with
    | .expr value _ => ev.expr value
    | st =>
      ev.stmt st >>= check
      return last) .undefined

theorem program_eq (ev : Evaluator) (stmts : List Stmt)
    : program ev stmts = programWith (fun _ => pure ⟨⟩) ev stmts :=
  rfl

theorem matches_inFrame {x x' : Run α} {frame : Frame} (hroom : C.Room s)
    (hx : ∀ stack, s.stack.push? frame = some stack →
      Matches C Excused (s.moved stack s.expressionDepth) Free x x')
    : Matches C Excused s Free (inFrame frame loc x) (inFrame frame loc x') := by
  apply matches_get
  dsimp only
  rw [show (C.image s).stack = s.stack.raised C.calls from rfl]
  cases hpush : s.stack.push? frame with
  | none =>
    have hnone : (s.stack.raised C.calls).push? frame = none := by
      rcases hroom with hcalls | hroom
      . rw [hcalls]
        exact hpush
      . rw [CallStack.push?_eq_some_iff.2 ⟨hroom, rfl⟩] at hpush
        cases hpush
    rw [hnone]
    exact matches_raise _ _
  | some stack =>
    rw [CallStack.push?_raised hpush]
    have hleave : ∀ s' : Session, s'.stack = stack → s'.expressionDepth = s.expressionDepth →
        { s' with stack := s'.stack.truncate s.stack.depth } = s'.moved s.stack s.expressionDepth := by
      intro s' hstack hdepth
      unfold Session.moved
      rw [hstack, CallStack.truncate_push? hpush, ← hdepth]
    apply matches_moved (P := fun _ => True) rfl rfl hleave
    . intro s' hstack hdepth
      rw [← hleave s' hstack hdepth]
      rfl
    . exact hx stack hpush

theorem matches_sourceText (name : String)
    : Matches C Excused s (fun text s' => s' = s ∧ C.env.sources name = some (.ok text))
        (sourceText name loc) (sourceText name loc) := by
  apply (matches_load name).bind
  rintro answer s' _ ⟨rfl, hanswer⟩
  cases answer with
  | ok text => exact matches_pure ⟨rfl, hanswer⟩
  | error _ => exact matches_raise _ _

theorem matches_haunt : Matches C Excused s Free (haunt loc) (haunt loc) := by
  apply matches_get
  have hsame : (C.image s).profiler.haunt (C.image s).heap (C.image s).roots
      = s.profiler.haunt s.heap s.roots := s.profiler.haunt_raised s.heap s.roots
  dsimp only
  rw [hsame]
  apply (matches_setProfiler _).bind
  intro _ s' _ _
  cases (s.profiler.haunt s.heap s.roots).1 with
  | ok report =>
    apply (matches_write _ _).bind
    exact fun _ _ _ _ => matches_pure trivial
  | error miss => exact matches_raise _ _

theorem matches_queueMicrotask (args : List Value)
    : Matches C Excused s Free (queueMicrotask args loc) (queueMicrotask args loc) := by
  apply matches_get
  rw [show (C.image s).callable? (args.headD .undefined) = s.callable? (args.headD .undefined) from rfl]
  cases s.callable? (args.headD .undefined) with
  | some f =>
    apply (matches_modifyMicrotasks fun tasks => tasks ++ [args.headD .undefined]).bind
    exact fun _ _ _ _ => matches_pure trivial
  | none => exact matches_raise _ _

variable [C.Lawful]

/-- The functions that a piece of code declares are known. -/
theorem matches_hoist {c : Code} {jumps : Jumps} {stmts : List Stmt} (hr : C.Runs n s c)
    (hparts : c.parts = stmts.map (.stmt jumps))
    : Matches C C.Excuses s Free (hoist stmts) (hoist stmts) := by
  apply Matches.bind
  . apply matches_forM (I := fun _ => True) trivial
    exact fun v _ s' _ _ => matches_declareVar v.1
  . intro _ s₁ hl₁ _
    apply matches_forM (I := fun _ => True) trivial
    intro f hf s₂ hl₂ _
    apply (matches_closure ((hr.leads (hl₁.trans hl₂)).declared hparts hf)).bind
    intro v s₃ _ _
    cases f.name with
    | some name => exact matches_declare _ name v
    | none => exact matches_pure trivial

theorem matches_displays (hc : C.IsClear s) (args : List Value)
    : Matches C Excused s (fun _ => C.IsClear) (args.mapM Run.display) (args.mapM Run.display) := by
  apply matches_mapM hc
  intro v _ s' _ hc'
  refine (matches_display hc' v).mono ?_
  rintro _ _ rfl
  exact hc'

theorem matches_print (hc : C.IsClear s) (args : List Value)
    : Matches C Excused s Free (print args) (print args) := by
  apply (matches_displays hc args).bind
  intro texts s' _ _
  apply (matches_write _ _).bind
  exact fun _ _ _ _ => matches_pure trivial

theorem matches_read (hc : C.IsClear s) (args : List Value)
    : Matches C Excused s Free (read args loc) (read args loc) := by
  unfold read
  split
  . apply (matches_display hc _).bind
    intro name s' _ _
    apply (matches_sourceText name).bind
    exact fun _ _ _ _ => matches_pure trivial
  . exact matches_raise _ _

theorem matches_makeError (hc : C.IsClear s) (c : ErrorClass) (args : List Value)
    : Matches C C.Excuses s Free (makeError c args loc) (makeError c args loc) := by
  have hnew : ∀ message, Matches C C.Excuses s Free (do
      let trace := (← Run.get).trace (c.headline message) loc
      return Value.object (← Run.heap loc (Heap.newError c message (some trace)))) (do
      let trace := (← Run.get).trace (c.headline message) loc
      return Value.object (← Run.heap loc (Heap.newError c message (some trace)))) := by
    intro message
    apply matches_get
    rw [Comparison.image, s.trace_raised]
    apply (matches_heap (Heap.lifts_newError _ _ _) (Heap.keeps_newError _ _ _) loc).bind
    exact fun _ _ _ _ => matches_pure trivial
  unfold makeError
  split
  . exact hnew _
  . exact hnew _
  . apply (matches_display hc _).bind
    rintro message s' _ rfl
    exact hnew message

variable (hev : ev.Matches C n ev')
include hev

theorem matches_ghostify (hc : C.IsClear s) (hr : C.Runs (n + 1) s .call) (args : List Value)
    : Matches C Excused s Free (ghostify ev args loc) (ghostify ev' args loc) := by
  apply Matches.bind
  . apply matches_forM hc
    intro arg _ s₁ hl₁ hc₁
    apply (matches_display hc₁ arg).bind
    rintro name s₂ _ rfl
    apply (matches_sourceText name).bind
    rintro source s₃ _ ⟨rfl, hsource⟩
    refine ((hev.script ((hr.leads hl₁).load hsource) name (some loc)).discard).mono ?_
    exact fun _ _ ⟨_, hc₄⟩ => hc₄
  . exact fun _ _ _ _ => matches_pure trivial

theorem matches_native (hc : C.IsClear s) (hr : C.Runs (n + 1) s .call) (builtin : Builtin)
    (args : List Value)
    : Matches C C.Excuses s Free (native ev builtin args loc) (native ev' builtin args loc) := by
  cases builtin with
  | print => exact matches_print hc args
  | read => exact matches_read hc args
  | ghostify => exact matches_ghostify hev hc hr args
  | haunt => exact matches_haunt
  | queueMicrotask => exact matches_queueMicrotask args
  | version => exact matches_pure trivial
  | makeError c => exact matches_makeError hc c args

theorem matches_untilReturnWith {check check' : Completion → Run PUnit} {jumps : Jumps}
    (hcheck : ∀ s completion, completion.Allowed jumps →
      Matches C C.Excuses s Free (check completion) (check' completion))
    {stmts : List Stmt} (hr : ∀ st ∈ stmts, C.Runs n s (.stmt jumps st))
    : Matches C C.Excuses s Free (untilReturnWith check ev stmts) (untilReturnWith check' ev' stmts) := by
  induction stmts generalizing s with
  | nil => exact matches_pure trivial
  | cons st stmts ih =>
    apply (hev.stmt (hr st List.mem_cons_self)).bind
    intro completion s₁ hl₁ hcompletion
    apply (hcheck s₁ completion hcompletion).bind
    intro _ s₂ hl₂ _
    cases completion with
    | «return» v => exact matches_pure trivial
    | _ => exact ih fun st' hst' => (hr st' (List.mem_cons_of_mem _ hst')).leads (hl₁.trans hl₂)

theorem matches_functionBodyWith {check check' : Completion → Run PUnit}
    (hcheck : ∀ s completion, completion.Allowed { inFunction := true } →
      Matches C C.Excuses s Free (check completion) (check' completion))
    {body : FunctionBody} (hr : C.Runs (n + 1) s (.body body))
    : Matches C C.Excuses s Free (functionBodyWith check ev body) (functionBodyWith check' ev' body) := by
  cases body with
  | expr value => exact (hev.expr (hr.part (List.mem_singleton_self _))).mono fun _ _ _ => trivial
  | block stmts =>
    apply (matches_hoist hr rfl).bind
    intro _ s' hl _
    apply matches_untilReturnWith hev hcheck
    exact fun st hst => (hr.leads hl).part (List.mem_map_of_mem hst)

theorem matches_functionBody {body : FunctionBody} (hr : C.Runs (n + 1) s (.body body))
    : Matches C C.Excuses s Free (functionBody ev body) (functionBody ev' body) := by
  rw [functionBody_eq, functionBody_eq]
  exact matches_functionBodyWith hev (fun _ _ _ => matches_pure trivial) hr

theorem matches_programWith {check check' : Completion → Run PUnit}
    (hcheck : ∀ s completion, completion.Allowed {} →
      Matches C C.Excuses s Free (check completion) (check' completion))
    {stmts : List Stmt} (hr : C.Runs (n + 1) s (.script stmts))
    : Matches C C.Excuses s Free (programWith check ev stmts) (programWith check' ev' stmts) := by
  apply (matches_hoist hr rfl).bind
  intro _ s₁ hl₁ _
  apply matches_foldlM
  intro last st hst s₂ hl₂
  have hr' := (hr.leads (hl₁.trans hl₂)).part (List.mem_map_of_mem hst)
  cases st with
  | expr value loc =>
    exact (hev.expr (hr'.inner (List.mem_singleton_self _))).mono fun _ _ _ => trivial
  | _ =>
    apply Matches.bind (P := Free)
    . apply (hev.stmt hr').bind
      exact fun completion s₃ _ hcompletion => hcheck s₃ completion hcompletion
    . exact fun _ _ _ _ => matches_pure trivial

theorem matches_program {stmts : List Stmt} (hr : C.Runs (n + 1) s (.script stmts))
    : Matches C C.Excuses s Free (program ev stmts) (program ev' stmts) := by
  rw [program_eq, program_eq]
  exact matches_programWith hev (fun _ _ _ => matches_pure trivial) hr

theorem matches_callWith {body body' : FunctionBody → Run Value} {callee : ObjectId}
    (hbody : ∀ s' b, C.Runs (n + 1) s' (.body b) → Matches C C.Excuses s' Free (body b) (body' b))
    (hc : C.IsClear s) (hr : C.Runs (n + 1) s .call)
    (hroom : ∀ f scope script, s.heap.content callee = .closure f scope script → C.Room s)
    (args : List Value) (callSite : Option Location)
    : Matches C C.Excuses s Free (callWith body ev callee args callSite)
        (callWith body' ev' callee args callSite) := by
  apply matches_get
  rw [show (C.image s).heap.content callee = s.heap.content callee from rfl]
  cases hcontent : s.heap.content callee with
  | native builtin => exact matches_native hev hc hr builtin args
  | closure f parent script =>
    intro hs
    obtain ⟨hf, hknown⟩ := hs.knows hcontent
    revert hs
    apply (matches_heap (Heap.lifts_newCallScope _ _ _ _) (Heap.keeps_newCallScope _ _ _ _) _).bind
    intro scope s' hl _
    have hroom' : C.Room s' := by
      unfold Comparison.Room
      rw [hl.stack]
      exact hroom f parent script hcontent
    apply matches_inFrame hroom'
    intro stack hpush
    apply hbody
    refine ⟨hf.body, ?_⟩
    exact Comparison.Lawful.admits_body (hr.leads hl).2
      (Comparison.Lawful.knows_mono hl.scripts hknown) hpush
  | _ =>
    apply (matches_display hc _).bind
    exact fun text s' _ _ => matches_raise _ _

omit hev in
theorem matches_scriptWith {run run' : List Stmt → Run Value} {source : String}
    (hrun : ∀ s' stmts, C.Runs n s' (.script stmts) →
      Matches C C.Excuses s' Free (run stmts) (run' stmts))
    (hr : C.Runs n s (.load source)) (hroom : ∀ stmts, parse source = .ok stmts → C.Room s)
    (origin : String) (callSite : Option Location)
    : Matches C C.Excuses s Free (scriptWith run source origin callSite)
        (scriptWith run' source origin callSite) := by
  apply matches_get
  rw [show (C.image s).scripts = s.scripts from rfl]
  let g (s : Session) : Session := { s with scripts := s.scripts.push ⟨origin, source⟩ }
  have hscripts : s.scripts.toList <+: (g s).scripts.toList := by simp [g]
  have hg : Matches C C.Excuses s (fun _ s' => s' = g s) (modify g) (modify g) := by
    refine matches_modify (fun hs => ?_) rfl
    have hinv : C.Inv (g s) := Comparison.Inv.of_heap hs hscripts
    exact ⟨⟨rfl, rfl, rfl, hscripts⟩, hinv⟩
  apply hg.bind
  rintro _ s' hl rfl
  cases hparse : parse source with
  | error e => exact matches_throw _
  | ok stmts =>
    have hwell : Stmt.WellFormedAll {} stmts := by
      obtain ⟨tokens, i, -, hscript⟩ := parse_eq_ok_iff.1 hparse
      exact Grammar.script_sound _ _ _ _ hscript
    have hroom' : C.Room (g s) := hroom stmts hparse
    dsimp only
    apply matches_inFrame hroom'
    intro stack hpush
    apply hrun
    refine ⟨hwell, ?_⟩
    have hscript : (g s).script? ⟨s.scripts.size⟩ = some ⟨origin, source⟩ := by
      simp [g, Session.script?]
    exact Comparison.Lawful.admits_script (hr.leads hl).2 hparse hscript hpush

end Eval
end ScriptHost
