import ScriptHost.Proofs.Comparison.Observed
import ScriptHost.Proofs.Session.Command

/-!
This module contains sessions in which every request for memory and for a frame is granted. Under higher
limits such a session is the same: so are the answers to all commands, what is written, and the state, apart
from the limits themselves.
-/

namespace ScriptHost

variable {α : Type} {why : Stop}

/-- The function is one that a script has made, so a call of it takes a frame. -/
def Content.isClosure : Content → Bool
  | .closure .. => true
  | _ => false

namespace Run

/-- Stop if a computation ends for want of memory. -/
def careful (why : Stop) (x : Run α) : Run α := do
  match ← attempt x with
  | .ok a => return a
  | .error e => if e.isOutOfMemory then stop why else throw e

/-- Stop if a frame is needed, but the stack is full. -/
def needRoom (why : Stop) (needed : Session → Bool) : Run Unit := do
  let s ← get
  if needed s && s.stack.maxDepth ≤ s.stack.depth then
    stop why

end Run

/-- The evaluation that stops as soon as memory or a frame is refused. -/
def carefulEvaluator (why : Stop) : (fuel : Nat) → Evaluator
  | 0 => evaluator 0
  | fuel + 1 =>
    let ev := carefulEvaluator why fuel
    {
      expr := fun e => Run.careful why (Eval.expr ev e)
      stmt := fun st => Run.careful why (Eval.stmtWith (Run.careful why) ev st)
      call := fun callee args callSite => do
        Run.needRoom why fun s => (s.heap.content callee).isClosure
        Run.careful why (Eval.call ev callee args callSite)
      script := fun source origin callSite => do
        Run.needRoom why fun _ => (parse source).isOk
        Run.careful why (Eval.script ev source origin callSite)
    }

namespace Run

variable {C : Comparison} {Excused : Exception → Prop} {s : Session} {P : α → Session → Prop}
  {x x' : Run α}

/-- What is excused is pardoned. -/
theorem Matches.careful (hwhy : C.Pardons why) (hx : Matches C C.Excuses s P x x')
    : Matches C Excused s P (careful why x) x' := by
  intro hs
  have hm := hx hs
  have hattempt := attempt_eq x C.env s
  unfold Run.careful
  cases hout : x C.env s with
  | done a s' =>
    rw [hout] at hm hattempt
    rw [bind_done hattempt]
    exact hm
  | thrown e s' =>
    rw [hout] at hm hattempt
    rw [bind_done hattempt]
    dsimp only
    cases hmemory : e.isOutOfMemory with
    | true =>
      rw [if_pos rfl]
      exact .inl hwhy
    | false =>
      rw [if_neg Bool.false_ne_true]
      have hnot : ¬ C.Excuses e := by
        intro he
        rw [he.2] at hmemory
        cases hmemory
      exact ⟨hm.1, .inr (hm.2.resolve_left hnot)⟩
  | stopped why' =>
    rw [hout] at hm hattempt
    rw [bind_stopped hattempt]
    exact hm

theorem Matches.needRoom {needed : Session → Bool} (hwhy : C.Pardons why)
    (hx : (needed s → C.Room s) → Matches C Excused s P x x')
    : Matches C Excused s P (do needRoom why needed; x) x' := by
  intro hs
  change Outcome.Matches C Excused s P
    (((if needed s && s.stack.maxDepth ≤ s.stack.depth then stop why else pure PUnit.unit : Run PUnit)
      >>= fun _ => x) C.env s) _
  split
  . exact .inl hwhy
  . next hroom =>
    refine hx (fun hneeded => .inr ?_) hs
    simpa [hneeded] using hroom

theorem matches_takeSnapshot : Matches C Excused s Free takeSnapshot takeSnapshot := by
  apply matches_get
  have hsame : (C.image s).profiler.take (C.image s).heap (C.image s).roots
      = s.profiler.take s.heap s.roots := s.profiler.take_raised s.heap s.roots
  dsimp only
  rw [hsame]
  apply (matches_setProfiler _).bind
  exact fun _ _ _ _ => matches_pure trivial

theorem matches_releaseSnapshots : Matches C Excused s Free releaseSnapshots releaseSnapshots := by
  apply matches_get
  apply (matches_setProfiler _).bind
  exact fun _ _ _ _ => matches_pure trivial

end Run

theorem Outcome.Matches.eq_raised {C : Comparison} {P : α → Session → Prop} {s : Session} {o o' : Outcome α}
    (hgoes : ∀ why, C.Pardons why → o ≠ .stopped why) (ho : o.Matches C Run.Never s P o')
    : o' = o.raised C.memory C.calls := by
  cases o with
  | done a s' => exact ho.2.2
  | thrown e s' => exact ho.2.resolve_left id
  | stopped why => exact (ho.resolve_left fun hwhy => hgoes why hwhy rfl).2

/-- All code may be run, by evaluations that end or not, and lines are cut at the same length. -/
structure Comparison.Lenient (C : Comparison) : Prop where
  maxLineLength : C.config.maxLineLength = C.env.config.maxLineLength
  admits : ∀ n s c, C.Admits n s c
  clear : ∀ c, C.Clear c
  mayRunOut : C.mayRunOut
  anyCallee : C.anyCallee

theorem Comparison.raising_lenient (env : Env) (memory calls : Nat) (Pardons : Stop → Prop)
    : (raising env memory calls Pardons).Lenient :=
  ⟨rfl, fun _ _ _ => trivial, fun _ => trivial, trivial, trivial⟩

section Lenient

variable {C : Comparison} [C.Lawful] (hlenient : C.Lenient)
include hlenient

/-- A careful evaluation that nothing is refused to is the same as a usual one. -/
theorem carefulEvaluator_matches (hwhy : C.Pardons why) (n : Nat)
    : (carefulEvaluator why n).Matches C n (evaluator n) := by
  induction n with
  | zero => exact evaluator_zero_matches
  | succ n ih =>
    have hallclear : ∀ s, C.IsClear s := fun _ => hlenient.clear _
    refine ⟨?_, ?_, ?_, ?_⟩
    . intro Excused s e hr
      have hx : Run.Matches C Excused s Run.Free (Run.careful why (Eval.expr (carefulEvaluator why n) e))
          (Eval.expr (evaluator n) e) := by
        apply Run.Matches.careful hwhy
        rw [Eval.expr_eq, Eval.expr_eq]
        exact Eval.matches_nested (Eval.matches_exprRule ih (hallclear _) hr.nested)
      exact hx.mono fun _ s' _ => hallclear s'
    . intro Excused s jumps st hr
      apply Run.Matches.careful hwhy
      change Run.Matches C C.Excuses s _ _ (Eval.stmt (evaluator n) st)
      rw [Eval.stmt_eq]
      exact Eval.matches_stmtWith ih (Run.Matches.careful hwhy) hr
    . intro Excused s callee hr _ args callSite
      apply Run.Matches.needRoom hwhy
      intro hroom
      apply Run.Matches.careful hwhy
      change Run.Matches C C.Excuses s _ _ (Eval.call (evaluator n) callee args callSite)
      rw [Eval.call_eq, Eval.call_eq]
      refine Eval.matches_callWith ih (fun _ _ => Eval.matches_functionBody ih) (hallclear s) hr ?_ args callSite
      intro f scope script hcontent
      apply hroom
      rw [hcontent]
      rfl
    . intro Excused s source hr origin callSite
      have hx : Run.Matches C Excused s Run.Free
          (do
            Run.needRoom why fun _ => (parse source).isOk
            Run.careful why (Eval.script (carefulEvaluator why n) source origin callSite))
          (Eval.script (evaluator n) source origin callSite) := by
        apply Run.Matches.needRoom hwhy
        intro hroom
        apply Run.Matches.careful hwhy
        rw [Eval.script_eq, Eval.script_eq]
        refine Eval.matches_scriptWith (fun _ _ => Eval.matches_program ih) hr ?_ origin callSite
        intro stmts hparse
        apply hroom
        rw [hparse]
        rfl
      exact hx.mono fun _ s' _ => hallclear s'

namespace Evaluation

open Run

variable {Excused : Exception → Prop} {ev ev' : Evaluation} {s : Session}
  (hev : (ev C.env.fuel).Matches C C.env.fuel (ev' C.env.fuel))
include hev

omit [C.Lawful] in
theorem matches_script (source origin : String) (callSite : Option Location)
    : Matches C Excused s Free (ev.script source origin callSite) (ev'.script source origin callSite) := by
  apply matches_env
  exact (hev.script ⟨trivial, hlenient.admits _ _ _⟩ origin callSite).mono fun _ _ _ => trivial

omit [C.Lawful] in
theorem matches_call (callee : ObjectId) (args : List Value)
    : Matches C Excused s Free (ev.call callee args) (ev'.call callee args) := by
  apply matches_env
  exact hev.call ⟨trivial, hlenient.admits _ _ _⟩ (.inl hlenient.anyCallee) args none

theorem matches_execute (source origin : String) (print report : Bool)
    : Matches C Excused s Free (ev.execute source origin print report)
        (ev'.execute source origin print report) := by
  apply (matches_script hlenient hev source origin none).attempt
  . intro v s' _ _
    dsimp only
    split
    . apply (matches_display (hlenient.clear _) v).bind
      intro text s'' _ _
      apply (matches_write _ _).bind
      exact fun _ _ _ _ => matches_pure trivial
    . exact matches_pure trivial
  . intro e s' _
    dsimp only
    split
    . apply (matches_report e).bind
      exact fun _ _ _ _ => matches_pure trivial
    . exact matches_pure trivial

omit [C.Lawful] in
theorem matches_drainUpTo (n : Nat) (succeeded : Bool)
    : Matches C Excused s Free (ev.drainUpTo n succeeded) (ev'.drainUpTo n succeeded) := by
  induction n generalizing s succeeded with
  | zero => exact matches_stop hlenient.mayRunOut
  | succ n ih =>
    apply matches_get
    rw [show (C.image s).microtasks = s.microtasks from rfl]
    cases s.microtasks with
    | nil => exact matches_pure trivial
    | cons task tasks =>
      apply (matches_modifyMicrotasks fun _ => tasks).bind
      intro _ s' _ _
      cases task.object? with
      | none => exact ih succeeded
      | some f =>
        apply (matches_call hlenient hev f []).attempt
        . exact fun _ _ _ _ => ih succeeded
        . intro e s'' _
          apply (matches_report e).bind
          exact fun _ _ _ _ => ih false

omit [C.Lawful] in
theorem matches_drain : Matches C Excused s Free ev.drain ev'.drain := by
  apply matches_env
  exact matches_drainUpTo hlenient hev C.env.fuel true

theorem matches_batch (names : List String)
    : Matches C Excused s Free (ev.batch names) (ev'.batch names) := by
  induction names generalizing s with
  | nil => exact matches_pure trivial
  | cons name names ih =>
    apply (matches_load name).bind
    intro answer s₁ _ _
    cases answer with
    | error e =>
      apply (matches_write _ _).bind
      exact fun _ _ _ _ => ih
    | ok source =>
      apply (matches_execute hlenient hev source name false true).bind
      intro executed s₂ _ _
      apply (matches_drain hlenient hev).bind
      intro drained s₃ _ _
      split
      . exact ih
      . exact matches_pure trivial

theorem matches_runLine (line : List UInt8)
    : Matches C Excused s Free (ev.runLine line) (ev'.runLine line) := by
  apply matches_env
  rw [show C.env'.config.maxLineLength = C.config.maxLineLength from rfl, hlenient.maxLineLength]
  apply (matches_execute hlenient hev _ _ true true).discard.bind
  intro _ s' _ _
  exact ((matches_drain hlenient hev).discard).mono fun _ _ _ => trivial

theorem matches_interactive (input : List UInt8)
    : Matches C Excused s Free (ev.interactive input) (ev'.interactive input) := by
  apply (matches_write _ _).bind
  intro _ s₁ _ _
  apply Matches.bind (P := Free)
  . apply matches_forM (I := fun _ => True) trivial
    intro line _ s₂ _ _
    apply (matches_write _ _).bind
    exact fun _ _ _ _ => matches_runLine hlenient hev line
  . intro _ s₃ _ _
    apply (matches_write _ _).bind
    intro _ s₄ _ _
    apply (matches_write _ _).bind
    exact fun _ _ _ _ => matches_pure trivial

end Evaluation

open Run in
theorem Command.matches_runBy {Excused : Exception → Prop} {ev ev' : Evaluation} {s : Session}
    (hev : (ev C.env.fuel).Matches C C.env.fuel (ev' C.env.fuel)) (c : Command)
    : Matches C Excused s Free (c.runBy ev) (c.runBy ev') := by
  have hpure {α : Type} {x x' : Run α} (hx : Matches C Excused s Free x x') (f : α → Answer)
      : Matches C Excused s Free (do return f (← x)) (do return f (← x')) :=
    hx.bind fun _ _ _ _ => matches_pure trivial
  cases c with
  | script source origin callSite =>
    apply (Evaluation.matches_script hlenient hev source origin callSite).attempt
    . exact fun _ _ _ _ => matches_pure trivial
    . exact fun _ _ _ => matches_pure trivial
  | execute source origin print report =>
    exact hpure (Evaluation.matches_execute hlenient hev source origin print report) .succeeded
  | drain => exact hpure (Evaluation.matches_drain hlenient hev) .succeeded
  | batch names => exact hpure (Evaluation.matches_batch hlenient hev names) .status
  | interactive input => exact hpure (Evaluation.matches_interactive hlenient hev input) .status
  | takeSnapshot => exact hpure matches_takeSnapshot .snapshot
  | releaseSnapshots => exact hpure matches_releaseSnapshots .released

namespace Session

variable {s : Session}

theorem outcomes_matches {ev ev' : Evaluation} {cs : List Command}
    (hev : (ev C.env.fuel).Matches C C.env.fuel (ev' C.env.fuel)) (hs : C.Inv s)
    (hgoes : ∀ why, C.Pardons why → .stopped why ∉ s.outcomes (Command.runBy ev) C.env cs)
    : (C.image s).outcomes (Command.runBy ev') C.env' cs
        = (s.outcomes (Command.runBy ev) C.env cs).map (.raised C.memory C.calls) := by
  induction cs generalizing s with
  | nil => rfl
  | cons c cs ih =>
    have hm : Outcome.Matches C Run.Never s Run.Free _ _ := c.matches_runBy hlenient hev hs
    have hfirst : ∀ why, C.Pardons why → c.runBy ev C.env s ≠ .stopped why := by
      intro why hwhy hstopped
      apply hgoes why hwhy
      rw [outcomes_cons, hstopped]
      exact List.mem_cons_self
    have hrest : ∀ s', (c.runBy ev C.env s).session? = some s' →
        (C.image s').outcomes (Command.runBy ev') C.env' cs
          = (s'.outcomes (Command.runBy ev) C.env cs).map (.raised C.memory C.calls) := by
      intro s' hout
      apply ih (hm.leads hout).inv
      intro why hwhy hmem
      apply hgoes why hwhy
      rw [outcomes_cons, hout]
      exact List.mem_cons_of_mem _ hmem
    rw [outcomes_cons, outcomes_cons, hm.eq_raised hfirst]
    cases hout : c.runBy ev C.env s with
    | done a s' | thrown e s' => exact congrArg (List.cons _) (hrest s' (by rw [hout]; rfl))
    | stopped why => rfl

end Session

end Lenient

namespace Config

/-- The second configuration allows more memory and more calls, and is otherwise the same. -/
structure Raises (config config' : Config) : Prop where
  heapLimit : config.heapLimit ≤ config'.heapLimit
  maxCallDepth : config.maxCallDepth ≤ config'.maxCallDepth
  maxExpressionDepth : config'.maxExpressionDepth = config.maxExpressionDepth
  maxLineLength : config'.maxLineLength = config.maxLineLength

theorem Raises.eq {config config' : Config} (hraises : config.Raises config')
    : config' = config.raised (config'.heapLimit - config.heapLimit)
        (config'.maxCallDepth - config.maxCallDepth) := by
  unfold raised
  rw [Nat.add_sub_of_le hraises.heapLimit, Nat.add_sub_of_le hraises.maxCallDepth,
    ← hraises.maxExpressionDepth, ← hraises.maxLineLength]

end Config

namespace Session

variable {s : Session} {config config' : Config} {sources : Sources} {fuel : Nat} {cs : List Command}

/-- No memory and no frame is refused, so an evaluation that would stop at that does not. -/
def Granted (env : Env) (s : Session) (cs : List Command) : Prop :=
  ∃ why, .stopped why ∉ s.outcomes (Command.runBy (carefulEvaluator why)) env cs

theorem start_raised (hstart : start config = .ok s) (memory calls : Nat)
    : start (config.raised memory calls) = .ok (s.raised memory calls) := by
  obtain ⟨global, hglobal, rfl⟩ := start_eq hstart
  have hexec : Heap.newGlobal.run.run ((Heap.empty config.heapLimit).raised memory) = _ :=
    Heap.lifts_newGlobal _ _ _ (Prod.ext hglobal rfl)
  unfold start
  rw [show Heap.empty (config.raised memory calls).heapLimit = (Heap.empty config.heapLimit).raised memory
    from rfl, hexec]
  rfl

/-- The evaluation that has not been refused anything is the usual one under any higher limits. -/
theorem outcomes_raised (hs : s.heap.Closures fun f _ => f.WellFormed)
    (hgoes : .stopped why ∉ s.outcomes (Command.runBy (carefulEvaluator why)) ⟨config, sources, fuel⟩ cs)
    (memory calls : Nat)
    : (s.raised memory calls).outcomes Command.run ⟨config.raised memory calls, sources, fuel⟩ cs
        = (s.outcomes (Command.runBy (carefulEvaluator why)) ⟨config, sources, fuel⟩ cs).map
            (.raised memory calls) := by
  let C := Comparison.raising ⟨config, sources, fuel⟩ memory calls (· = why)
  have hlenient : C.Lenient := Comparison.raising_lenient ⟨config, sources, fuel⟩ memory calls (· = why)
  have hinv : C.Inv s := fun o ho f scope script hcontent => ⟨hs o ho f scope script hcontent, trivial⟩
  rw [← Command.runBy_evaluator]
  apply outcomes_matches hlenient (carefulEvaluator_matches hlenient rfl fuel) hinv
  intro why' hwhy
  rwa [show why' = why from hwhy]

/--
Higher limits make no difference to a session in which all memory and all frames are granted: all commands
have the same answers, write the same, and leave the same state, apart from the limits.
-/
theorem outcomes_of_granted (hraises : config.Raises config') (hstart : start config = .ok s)
    (hgranted : s.Granted ⟨config, sources, fuel⟩ cs)
    : ∃ memory calls, config' = config.raised memory calls ∧
        start config' = .ok (s.raised memory calls) ∧
        (s.raised memory calls).outcomes Command.run ⟨config', sources, fuel⟩ cs
          = (s.outcomes Command.run ⟨config, sources, fuel⟩ cs).map (.raised memory calls) := by
  obtain ⟨why, hgoes⟩ := hgranted
  let memory := config'.heapLimit - config.heapLimit
  let calls := config'.maxCallDepth - config.maxCallDepth
  have hconfig : config' = config.raised memory calls := hraises.eq
  have hclosures : s.heap.Closures fun f _ => f.WellFormed := closures_start hstart
  -- with no more room at all, the careful evaluation shows to be the usual one
  have hcareful := outcomes_raised hclosures hgoes 0 0
  have hraised := outcomes_raised hclosures hgoes memory calls
  have hsame : (Outcome.raised 0 0 : Outcome Answer → Outcome Answer) = id := by
    funext o
    cases o <;> rfl
  rw [hsame, List.map_id] at hcareful
  rw [← hcareful] at hraised
  refine ⟨memory, calls, hconfig, ?_, ?_⟩
  . rw [hconfig]
    exact start_raised hstart memory calls
  . rw [hconfig]
    exact hraised

/-- A function that recurses and lets an array grow, in scripts, from a file, and by the host. -/
def countings : List Command := [
  .execute ("var a = []; function f(n) \x7b if (n > 0) \x7b a[n] = n; f(n - 1); \x7d return a; \x7d"
    ++ "f(2);") "a.js" true true,
  .batch ["b.js"], .drain, .takeSnapshot,
  .script "try \x7b f(1); g(); \x7d catch (e) \x7b e.message; \x7d" "c.js" none,
  .interactive "a\n".toUTF8.toList, .releaseSnapshots]

/-- The least limits under which nothing is refused to them. -/
def countingEnv : Env where
  config := { maxCallDepth := 4, heapLimit := 3008 }
  sources := .ofList [("b.js", "queueMicrotask(function () \x7b print(f(1)); \x7d);")]
  fuel := 40

def granted? (env : Env) (cs : List Command) : Bool :=
  match start env.config with
  | .ok s =>
    (s.outcomes (Command.runBy (carefulEvaluator .outOfFuel)) env cs).all fun o => o.session?.isSome
  | .error _ => false

theorem granted_counting : granted? countingEnv countings := by
  decide +kernel

/-- By default there is more room, but the outcomes are the same. -/
theorem outcomes_of_granted_counting
    : countingEnv.config.Raises {} ∧ ∃ s, start countingEnv.config = .ok s ∧ s.Granted countingEnv countings ∧
        ∃ memory calls, ({} : Config) = countingEnv.config.raised memory calls ∧
          start {} = .ok (s.raised memory calls) ∧
          (s.raised memory calls).outcomes Command.run { countingEnv with config := {} } countings
            = (s.outcomes Command.run countingEnv countings).map (.raised memory calls) := by
  have hraises : countingEnv.config.Raises {} := ⟨by decide, by decide, rfl, rfl⟩
  have hgranted := granted_counting
  unfold granted? at hgranted
  split at hgranted
  . next s hstart =>
    have hs : s.Granted countingEnv countings := by
      refine ⟨.outOfFuel, fun hstopped => ?_⟩
      have hnone := List.all_eq_true.1 hgranted _ hstopped
      cases hnone
    exact ⟨hraises, s, hstart, hs, outcomes_of_granted hraises hstart hs⟩
  . cases hgranted

end Session
end ScriptHost
