import ScriptHost.Proofs.Session.Limits

/-!
This module contains evaluations under a gate, which is asked whenever a script wants a function to wait, and
may stop the run there. What a traced computation comes to under any gate is given by one list of such calls
and one outcome: it stops at the first call that the gate does not let pass. So there are no other calls, and
no other order of them.
-/

namespace ScriptHost

/-- A call of `queueMicrotask`: the session in which it is made, and the function that is to wait. -/
structure Queued where
  session : Session
  task : Value

/-- Who decides about the calls of `queueMicrotask`. -/
abbrev Gate :=
  Queued → Option Stop

namespace Session

/-- The function that is to wait if an object is called. -/
def queued? (s : Session) (callee : ObjectId) (args : List Value) : Option Value :=
  match s.heap.content callee with
  | .native .queueMicrotask => (some (args.headD .undefined)).filter fun task => (s.callable? task).isSome
  | _ => none

/-- The texts on the error stream. -/
def reports (s : Session) : List String :=
  (s.console.toList.filter fun chunk => chunk.stream = .err).map Chunk.text

/-- Each call is made when the functions of the calls before it wait, in their order and behind `tasks`. -/
def Chained : List Value → List Queued → Prop
  | _, [] => True
  | tasks, c :: cs =>
    c.session.microtasks = tasks ∧ (c.session.callable? c.task).isSome ∧ Chained (tasks ++ [c.task]) cs

/-- The calls are all that becomes of the functions that wait, and nothing is reported. -/
structure Queues (s : Session) (calls : List Queued) (s' : Session) : Prop where
  chained : Chained s.microtasks calls
  microtasks : s'.microtasks = s.microtasks ++ calls.map Queued.task
  reports : s'.reports = s.reports

variable {s s' s'' : Session} {calls calls' : List Queued} {tasks : List Value}

theorem chained_append
    : Chained tasks (calls ++ calls')
        ↔ Chained tasks calls ∧ Chained (tasks ++ calls.map Queued.task) calls' := by
  induction calls generalizing tasks with
  | nil => simp [Chained]
  | cons c calls ih => simp [Chained, ih, and_assoc]

theorem Chained.callable (hc : Chained tasks calls)
    : ∀ c ∈ calls, (c.session.callable? c.task).isSome := by
  induction calls generalizing tasks with
  | nil => simp
  | cons c calls ih =>
    intro c' hc'
    rcases List.mem_cons.1 hc' with rfl | hc'
    . exact hc.2.1
    . exact ih hc.2.2 c' hc'

theorem Chained.length_le (hc : Chained tasks calls)
    : ∀ c ∈ calls, tasks.length ≤ c.session.microtasks.length := by
  induction calls generalizing tasks with
  | nil => simp
  | cons c calls ih =>
    intro c' hc'
    rcases List.mem_cons.1 hc' with rfl | hc'
    . rw [hc.1]
    . have hle := ih hc.2.2 c' hc'
      rw [List.length_append] at hle
      omega

/-- No call is made twice: more functions wait after it. -/
theorem Chained.not_mem {c : Queued} (hc : Chained tasks (c :: calls)) : c ∉ calls := by
  intro hmem
  have hle := hc.2.2.length_le c hmem
  rw [hc.1, List.length_append] at hle
  exact absurd hle (Nat.not_succ_le_self _)

theorem queues_self (s : Session) : s.Queues [] s :=
  ⟨trivial, (List.append_nil _).symm, rfl⟩

theorem Queues.trans (hq : s.Queues calls s') (hq' : s'.Queues calls' s'')
    : s.Queues (calls ++ calls') s'' where
  chained := chained_append.2 ⟨hq.chained, hq.microtasks ▸ hq'.chained⟩
  microtasks := by rw [hq'.microtasks, hq.microtasks, List.map_append, List.append_assoc]
  reports := hq'.reports.trans hq.reports

/-- A change that leaves the functions that wait and the error stream alone. -/
theorem Queues.still (hq : s.Queues calls s') (hmicrotasks : s''.microtasks = s'.microtasks)
    (hreports : s''.reports = s'.reports)
    : s.Queues calls s'' :=
  ⟨hq.chained, hmicrotasks.trans hq.microtasks, hreports.trans hq.reports⟩

end Session

/-- The outcome of calls that a gate is asked about, unless it stops one of them. -/
def Gate.pass {α : Type} (gate : Gate) (calls : List Queued) (o : Outcome α) : Outcome α :=
  match calls.findSome? gate with
  | some why => .stopped why
  | none => o

namespace Gate

open Session

variable {α : Type} {gate gate' : Gate} {c : Queued} {calls calls' : List Queued} {tasks : List Value}
  {o o' : Outcome α}

theorem pass_open (calls : List Queued) (o : Outcome α)
    : pass (fun _ => none) calls o = o := by
  have hnone : calls.findSome? (fun _ => (none : Option Stop)) = none := by simp
  unfold pass
  rw [hnone]

theorem pass_cons_some {why : Stop} (hstop : gate c = some why)
    : gate.pass (c :: calls) o = .stopped why := by
  unfold pass
  rw [List.findSome?_cons_of_isSome (by rw [hstop]; rfl), hstop]

theorem pass_cons_none (hpass : gate c = none) : gate.pass (c :: calls) o = gate.pass calls o := by
  unfold pass
  rw [List.findSome?_cons_of_isNone (by rw [hpass]; rfl)]

theorem pass_congr (hgate : ∀ c ∈ calls, gate c = gate' c)
    : gate.pass calls o = gate'.pass calls o := by
  induction calls with
  | nil => rfl
  | cons c calls ih =>
    have hc := hgate c List.mem_cons_self
    have ih := ih fun c' hc' => hgate c' (List.mem_cons_of_mem c hc')
    cases hstop : gate' c with
    | some why =>
      rw [hstop] at hc
      rw [pass_cons_some hc, pass_cons_some hstop]
    | none =>
      rw [hstop] at hc
      rw [pass_cons_none hc, pass_cons_none hstop, ih]

theorem pass_append (gate : Gate) (calls calls' : List Queued) (o : Outcome α)
    : gate.pass (calls ++ calls') o = gate.pass calls (gate.pass calls' o) := by
  unfold Gate.pass
  rw [List.findSome?_append]
  cases calls.findSome? gate <;> rfl

/-- What becomes of calls and their outcome under all gates tells which calls and which outcome it is. -/
theorem pass_inj (hc : Chained tasks calls) (hc' : Chained tasks calls') (ho : o.session?.isSome)
    (ho' : o'.session?.isSome) (hpass : ∀ gate : Gate, gate.pass calls o = gate.pass calls' o')
    : calls = calls' ∧ o = o' := by
  classical
  induction calls generalizing tasks calls' with
  | nil =>
    cases calls' with
    | nil => exact ⟨rfl, hpass fun _ => none⟩
    | cons c' calls' =>
      have hstopped : o = .stopped .outOfFuel := hpass fun _ => some .outOfFuel
      rw [hstopped] at ho
      cases ho
  | cons c calls ih =>
    cases calls' with
    | nil =>
      have hstopped : .stopped .outOfFuel = o' := hpass fun _ => some .outOfFuel
      rw [← hstopped] at ho'
      cases ho'
    | cons c' calls' =>
      -- a gate that tells the first call from all others
      have hsame : c' = c := by
        by_contra hne
        let gate : Gate := fun q => if q = c then some .outOfFuel else some (.unread "")
        have hstops := hpass gate
        rw [pass_cons_some (if_pos rfl), pass_cons_some (if_neg hne)] at hstops
        cases hstops
      subst hsame
      have htail := ih hc.2.2 hc'.2.2 ?_
      . exact ⟨congrArg _ htail.1, htail.2⟩
      . intro gate
        let after : Gate := fun q => if q = c' then none else gate q
        have hafter : ∀ q, q ≠ c' → after q = gate q := fun q hq => if_neg hq
        have hrest := hpass after
        rw [pass_cons_none (if_pos rfl), pass_cons_none (if_pos rfl)] at hrest
        rw [pass_congr, hrest, pass_congr]
        . exact fun q hq => hafter q (ne_of_mem_of_not_mem hq hc'.not_mem)
        . exact fun q hq => (hafter q (ne_of_mem_of_not_mem hq hc.not_mem)).symm

end Gate

namespace Run

/-- A computation is asked about at the gate if it is a call of `queueMicrotask`. -/
def gated (gate : Gate) (callee : ObjectId) (args : List Value) (x : Run Value) : Run Value := fun env s =>
  match (s.queued? callee args).bind fun task => gate ⟨s, task⟩ with
  | some why => .stopped why
  | none => x env s

end Run

/-- The evaluation under a gate. -/
def gatedEvaluator (gate : Gate) : (fuel : Nat) → Evaluator
  | 0 => evaluator 0
  | fuel + 1 => {
      expr := fun e => Eval.expr (gatedEvaluator gate fuel) e
      stmt := fun st => Eval.stmt (gatedEvaluator gate fuel) st
      call := fun callee args callSite =>
        Run.gated gate callee args (Eval.call (gatedEvaluator gate fuel) callee args callSite)
      script := fun source origin callSite =>
        Eval.script (gatedEvaluator gate fuel) source origin callSite
    }

namespace Run

section Gated

variable {env : Env} {s : Session} {callee : ObjectId} {args : List Value}

theorem gated_of_none (hqueued : s.queued? callee args = none) (gate : Gate) (x : Run Value)
    : gated gate callee args x env s = x env s := by
  unfold gated
  rw [hqueued]
  rfl

theorem gated_of_some {task : Value} (hqueued : s.queued? callee args = some task) (gate : Gate)
    (x : Run Value)
    : gated gate callee args x env s = gate.pass [⟨s, task⟩] (x env s) := by
  unfold gated Gate.pass
  rw [hqueued, List.findSome?_singleton]
  rfl

end Gated

/-- A gate that lets all calls pass makes no difference. -/
theorem gated_open (callee : ObjectId) (args : List Value) (x : Run Value)
    : gated (fun _ => none) callee args x = x := by
  funext env s
  unfold gated
  cases s.queued? callee args <;> rfl

end Run

theorem gatedEvaluator_open (fuel : Nat) : gatedEvaluator (fun _ => none) fuel = evaluator fuel := by
  induction fuel with
  | zero => rfl
  | succ fuel ih =>
    unfold gatedEvaluator evaluator
    simp only [ih, Run.gated_open]

namespace Run

variable {α β : Type} {env : Env} {s : Session} {x y : Gate → Run α} {f : Gate → α → Run β}

/-- What a computation comes to under a gate is given by the calls that it makes and its outcome. -/
def TracedAt (env : Env) (s : Session) (x : Gate → Run α) : Prop :=
  ∃ (calls : List Queued) (o : Outcome α), (∀ gate, x gate env s = gate.pass calls o) ∧
    ∀ s', o.session? = some s' → s.Queues calls s'

def Traced (x : Gate → Run α) : Prop :=
  ∀ env s, TracedAt env s x

theorem TracedAt.congr (hx : TracedAt env s x) (hxy : ∀ gate, y gate env s = x gate env s)
    : TracedAt env s y := by
  obtain ⟨calls, o, hpass, hq⟩ := hx
  exact ⟨calls, o, fun gate => (hxy gate).trans (hpass gate), hq⟩

/-- A computation without calls. -/
theorem TracedAt.of_eq {x : Run α} (hx : ∀ s', (x env s).session? = some s' →
      s'.microtasks = s.microtasks ∧ s'.reports = s.reports)
    : TracedAt env s fun _ => x := by
  refine ⟨[], x env s, fun _ => rfl, ?_⟩
  intro s' hs'
  obtain ⟨hmicrotasks, hreports⟩ := hx s' hs'
  exact s.queues_self.still hmicrotasks hreports

theorem TracedAt.bind (hx : TracedAt env s x) (hf : ∀ a, Traced fun gate => f gate a)
    : TracedAt env s fun gate => x gate >>= f gate := by
  obtain ⟨calls, o, hpass, hq⟩ := hx
  -- a gate that stops the first computation stops both
  have hbind : ∀ (gate : Gate) (o' : Outcome β),
      (∀ x' : Run α, x' env s = o → (x' >>= f gate) env s = o') →
        (x gate >>= f gate) env s = gate.pass calls o' := by
    intro gate o' ho'
    have hgate := hpass gate
    unfold Gate.pass at hgate ⊢
    cases hstop : calls.findSome? gate with
    | some why =>
      rw [hstop] at hgate
      exact bind_stopped hgate _
    | none =>
      rw [hstop] at hgate
      exact ho' _ hgate
  cases o with
  | done a s₁ =>
    obtain ⟨calls', o', hpass', hq'⟩ := hf a env s₁
    refine ⟨calls ++ calls', o', ?_, fun s' hs' => (hq s₁ rfl).trans (hq' s' hs')⟩
    intro gate
    rw [Gate.pass_append, ← hpass']
    exact hbind gate _ fun x' hx' => bind_done hx' _
  | thrown e s₁ => exact ⟨calls, .thrown e s₁, fun gate => hbind gate _ fun x' hx' => bind_thrown hx' _, hq⟩
  | stopped why =>
    exact ⟨calls, .stopped why, fun gate => hbind gate _ fun x' hx' => bind_stopped hx' _, nofun⟩

theorem Traced.bind (hx : Traced x) (hf : ∀ a, Traced fun gate => f gate a)
    : Traced fun gate => x gate >>= f gate :=
  fun env s => (hx env s).bind hf

/-- What becomes of an outcome, if a gate has let all calls pass. -/
theorem TracedAt.map (hx : TracedAt env s x) (g : Outcome α → Outcome β)
    (hstopped : ∀ why, g (.stopped why) = .stopped why)
    (hg : ∀ o s', (g o).session? = some s' → ∃ s'', o.session? = some s'' ∧
      s'.microtasks = s''.microtasks ∧ s'.reports = s''.reports)
    : TracedAt env s fun gate => (fun env s => g (x gate env s) : Run β) := by
  obtain ⟨calls, o, hpass, hq⟩ := hx
  refine ⟨calls, g o, ?_, ?_⟩
  . intro gate
    change g (x gate env s) = _
    rw [hpass]
    unfold Gate.pass
    cases calls.findSome? gate with
    | some why => exact hstopped why
    | none => rfl
  . intro s' hs'
    obtain ⟨s'', hs'', hmicrotasks, hreports⟩ := hg o s' hs'
    exact (hq s'' hs'').still hmicrotasks hreports

/-- The outcome of a computation that catches all exceptions. -/
def caught : Outcome α → Outcome (Except Exception α)
  | .done a s => .done (.ok a) s
  | .thrown e s => .done (.error e) s
  | .stopped why => .stopped why

theorem Traced.attempt (hx : Traced x) : Traced fun gate => attempt (x gate) := by
  intro env s
  have hmap := (hx env s).map caught (fun _ => rfl) ?_
  . exact hmap.congr fun gate => attempt_eq (x gate) env s
  . intro o s' hs'
    cases o with
    | done a s'' | thrown e s'' => exact ⟨s', hs', rfl, rfl⟩
    | stopped why => cases hs'

/-- The outcome of a computation behind which the session is changed in any case. -/
def changed (g : Session → Session) : Outcome α → Outcome α
  | .done a s => .done a (g s)
  | .thrown e s => .thrown e (g s)
  | .stopped why => .stopped why

/-- A change of the session afterwards that leaves the functions that wait and the error stream alone. -/
theorem Traced.ensuring (hx : Traced x) {g : Session → Session}
    (hg : ∀ s, (g s).microtasks = s.microtasks ∧ (g s).reports = s.reports)
    : Traced fun gate => ensuring (x gate) g := by
  intro env s
  have hmap := (hx env s).map (changed g) (fun _ => rfl) ?_
  . exact hmap.congr fun gate => rfl
  . intro o s' hs'
    cases o with
    | done a s'' | thrown e s'' =>
      cases hs'
      exact ⟨s'', rfl, hg s''⟩
    | stopped why => cases hs'

theorem Traced.ite {c : Prop} [Decidable c] (hx : Traced x) (hy : Traced y)
    : Traced fun gate => if c then x gate else y gate := by
  by_cases hc : c
  . simpa only [if_pos hc] using hx
  . simpa only [if_neg hc] using hy

theorem traced_of_still {x : Run α}
    (hx : ∀ env s s', (x env s).session? = some s' → s'.microtasks = s.microtasks ∧ s'.reports = s.reports)
    : Traced fun _ => x :=
  fun env s => TracedAt.of_eq (hx env s)

theorem traced_pure (a : α) : Traced fun _ => (pure a : Run α) := by
  apply traced_of_still
  rintro env s s' ⟨⟩
  exact ⟨rfl, rfl⟩

theorem traced_get : Traced fun _ => get := by
  apply traced_of_still
  rintro env s s' ⟨⟩
  exact ⟨rfl, rfl⟩

theorem traced_env : Traced fun _ => Run.env := by
  apply traced_of_still
  rintro env s s' ⟨⟩
  exact ⟨rfl, rfl⟩

theorem traced_throw (e : Exception) : Traced fun _ => (throw e : Run α) := by
  apply traced_of_still
  rintro env s s' ⟨⟩
  exact ⟨rfl, rfl⟩

theorem traced_stop (why : Stop) : Traced fun _ => (stop why : Run α) :=
  traced_of_still fun _ _ _ => nofun

theorem traced_modify {g : Session → Session}
    (hg : ∀ s, (g s).microtasks = s.microtasks ∧ (g s).reports = s.reports)
    : Traced fun _ => modify g := by
  apply traced_of_still
  rintro env s s' ⟨⟩
  exact hg s

/-- A computation in other frames, which are left afterwards in any case. -/
theorem traced_moved {f g : Session → Session} (hx : Traced x)
    (hf : ∀ s, (f s).microtasks = s.microtasks ∧ (f s).reports = s.reports)
    (hg : ∀ s, (g s).microtasks = s.microtasks ∧ (g s).reports = s.reports)
    : Traced fun gate => (do modify f; ensuring (x gate) g) :=
  (traced_modify hf).bind fun _ => hx.ensuring hg

theorem traced_onHeap (op : HeapM α) : Traced fun _ => onHeap op := by
  apply traced_of_still
  intro env s s' hs'
  rw [onHeap_eq] at hs'
  cases hs'
  exact ⟨rfl, rfl⟩

theorem traced_ofExcept (r : Except Exception α) : Traced fun _ => ofExcept r := by
  cases r with
  | ok a => exact traced_pure a
  | error e => exact traced_throw e

theorem reports_write_out (s : Session) (text : String)
    : ({ s with console := s.console.write .out text } : Session).reports = s.reports := by
  unfold Session.reports Console.write
  rw [Array.toList_push, List.filter_append]
  simp

/-- What scripts print is no report. -/
theorem traced_print (text : String) : Traced fun _ => write .out text :=
  traced_modify fun s => ⟨rfl, reports_write_out s text⟩

theorem traced_iterate {step : Gate → Run (Option α)} (hstep : Traced step) (n : Nat)
    : Traced fun gate => iterate (step gate) n := by
  induction n with
  | zero => exact traced_stop .outOfFuel
  | succ n ih =>
    -- one more step is the step and what it decides
    have hsucc : Traced fun gate => step gate >>= fun a? => a?.elim (iterate (step gate) n : Run α) pure := by
      apply hstep.bind
      intro a?
      cases a? with
      | some a => exact traced_pure a
      | none => exact ih
    intro env s
    apply (hsucc env s).congr
    intro gate
    change _ = Run.bind (step gate) _ env s
    unfold iterate Run.bind
    rcases step gate env s with ⟨_ | _, s'⟩ | _ | _ <;> rfl

theorem traced_untilSome {step : Gate → Run (Option α)} (hstep : Traced step)
    : Traced fun gate => untilSome (step gate) :=
  fun env s => traced_iterate hstep env.fuel env s

theorem Traced.discard (hx : Traced x) : Traced fun gate => discard (x gate) :=
  hx.bind fun _ => traced_pure _

theorem traced_forM {as : List α} {f : Gate → α → Run PUnit} (hf : ∀ a, Traced fun gate => f gate a)
    : Traced fun gate => as.forM (f gate) := by
  induction as with
  | nil => exact traced_pure _
  | cons a as ih => exact (hf a).bind fun _ => ih

theorem traced_mapM {as : List α} (hf : ∀ a, Traced fun gate => f gate a)
    : Traced fun gate => as.mapM (f gate) := by
  induction as with
  | nil =>
    simp only [List.mapM_nil]
    exact traced_pure _
  | cons a as ih =>
    simp only [List.mapM_cons]
    exact (hf a).bind fun _ => ih.bind fun _ => traced_pure _

theorem traced_foldlM {as : List α} {f : Gate → β → α → Run β} (hf : ∀ b a, Traced fun gate => f gate b a)
    (b : β)
    : Traced fun gate => as.foldlM (f gate) b := by
  induction as generalizing b with
  | nil => exact traced_pure b
  | cons a as ih =>
    simp only [List.foldlM_cons]
    exact (hf b a).bind fun b' => ih b'

end Run
end ScriptHost
