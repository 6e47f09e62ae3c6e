import ScriptHost.Proofs.Queue.Call
import ScriptHost.Proofs.Session.Reachable

/-!
This module contains the order in which functions that wait are called: the ones that wait at first, and
then those that come to wait, in the order in which scripts ask for it. Each is called once. A failure of
one of them is reported once and keeps none of the others from its turn.
-/

namespace ScriptHost

namespace Run

/-- Call a function from outside of all scripts, under a gate. -/
def gatedCall (gate : Gate) (callee : ObjectId) (args : List Value) : Run Value := do
  (gatedEvaluator gate (← env).fuel).call callee args none

theorem gatedCall_open (callee : ObjectId) (args : List Value)
    : gatedCall (fun _ => none) callee args = call callee args := by
  unfold gatedCall call
  simp only [gatedEvaluator_open]

theorem traced_gatedCall (callee : ObjectId) (args : List Value)
    : Traced fun gate => gatedCall gate callee args :=
  traced_env.bind fun env => (gatedEvaluator_traced env.fuel).call callee args none

end Run

namespace Session

/-- The session after a text on the error stream. -/
def noted (s : Session) (text : String) : Session :=
  { s with console := s.console.write .err text }

/-- A function that waits has been called. -/
structure Served where
  task : Value
  /-- The calls of `queueMicrotask` meanwhile. -/
  queued : List Queued
  /-- The report on a failure. -/
  report : Option String

/-- The next function that waits is called. Meanwhile, the calls of `queueMicrotask` are the given ones. -/
inductive CallsNext (env : Env) (s : Session) : Value → List Queued → Outcome Value → Prop where
  | intro {task : Value} {tasks : List Value} {f : ObjectId} {calls : List Queued} {o : Outcome Value}
      (hnext : s.microtasks = task :: tasks) (htask : task.object? = some f)
      (hcall : ∀ gate, Run.gatedCall gate f [] env { s with microtasks := tasks } = gate.pass calls o)
      (hqueues : ∀ s', o.session? = some s' → Queues { s with microtasks := tasks } calls s')
      : CallsNext env s task calls o

/-- The next function that waits has its turn. If it fails, this is reported. -/
inductive Serves (env : Env) (s : Session) : Served → Session → Prop where
  | returned {task v : Value} {calls : List Queued} {s' : Session}
      (hcall : s.CallsNext env task calls (.done v s'))
      : Serves env s ⟨task, calls, none⟩ s'
  | failed {task : Value} {calls : List Queued} {e : Exception} {s' : Session}
      (hcall : s.CallsNext env task calls (.thrown e s')) {report : String}
      (hreport : report = renderReport e.message (s'.reportSite? e) e.trace)
      : Serves env s ⟨task, calls, some report⟩ (s'.noted report)

/-- The functions that wait are called, until none waits. -/
inductive Drains (env : Env) : Session → List Served → Session → Prop where
  | nil {s : Session} (hempty : s.microtasks = []) : Drains env s [] s
  | cons {s s' s'' : Session} {turn : Served} {turns : List Served} (hserves : Serves env s turn s')
      (hdrains : Drains env s' turns s'')
      : Drains env s (turn :: turns) s''

variable {env : Env} {s s' s'' : Session} {turn turn' : Served} {turns turns' : List Served}
  {task task' : Value} {calls calls' : List Queued} {o o' : Outcome Value}

theorem reports_noted (s : Session) (text : String)
    : (s.noted text).reports = s.reports ++ [text] := by
  unfold reports noted Console.write
  rw [Array.toList_push, List.filter_append, List.map_append]
  simp

theorem object?_of_callable {v : Value} (hv : (s.callable? v).isSome) : v.object?.isSome := by
  unfold callable? at hv
  cases hobject : v.object? with
  | some f => rfl
  | none =>
    rw [hobject] at hv
    cases hv

theorem CallsNext.queues (hc : s.CallsNext env task calls o) (ho : o.session? = some s')
    : ∃ tasks, s.microtasks = task :: tasks ∧ Queues { s with microtasks := tasks } calls s' := by
  cases hc with
  | intro hnext htask hcall hqueues => exact ⟨_, hnext, hqueues s' ho⟩

/-- There is no other list of calls, and no other order of them. -/
theorem CallsNext.unique (hc : s.CallsNext env task calls o) (hc' : s.CallsNext env task' calls' o')
    (ho : o.session? = some s') (ho' : o'.session? = some s'')
    : task = task' ∧ calls = calls' ∧ o = o' := by
  cases hc with
  | intro hnext htask hcall hqueues =>
    cases hc' with
    | intro hnext' htask' hcall' hqueues' =>
      cases hnext.symm.trans hnext'
      cases htask.symm.trans htask'
      have hpass : ∀ gate : Gate, gate.pass calls o = gate.pass calls' o' :=
        fun gate => (hcall gate).symm.trans (hcall' gate)
      exact ⟨rfl, Gate.pass_inj (hqueues s' ho).chained (hqueues' s'' ho').chained
        (Option.isSome_of_eq_some ho) (Option.isSome_of_eq_some ho') hpass⟩

theorem Serves.next (hs : s.Serves env turn s')
    : ∃ tasks, s.microtasks = turn.task :: tasks ∧
        s'.microtasks = tasks ++ turn.queued.map Queued.task := by
  cases hs with
  | returned hcall | failed hcall =>
    obtain ⟨tasks, hnext, hqueues⟩ := hcall.queues rfl
    exact ⟨tasks, hnext, hqueues.microtasks⟩

theorem Serves.callable (hs : s.Serves env turn s')
    : ∀ c ∈ turn.queued, (c.session.callable? c.task).isSome := by
  cases hs with
  | returned hcall | failed hcall =>
    obtain ⟨tasks, -, hqueues⟩ := hcall.queues rfl
    exact hqueues.chained.callable

theorem Serves.reports (hs : s.Serves env turn s') : s'.reports = s.reports ++ turn.report.toList := by
  cases hs with
  | returned hcall =>
    obtain ⟨tasks, -, hqueues⟩ := hcall.queues rfl
    exact hqueues.reports.trans (List.append_nil _).symm
  | failed hcall hreport =>
    obtain ⟨tasks, -, hqueues⟩ := hcall.queues rfl
    rw [reports_noted, hqueues.reports]
    rfl

theorem Serves.unique (hs : s.Serves env turn s') (hs' : s.Serves env turn' s'')
    : turn = turn' ∧ s' = s'' := by
  cases hs with
  | returned hcall =>
    cases hs' with
    | returned hcall' =>
      obtain ⟨rfl, rfl, ⟨⟩⟩ := hcall.unique hcall' rfl rfl
      exact ⟨rfl, rfl⟩
    | failed hcall' hreport' =>
      obtain ⟨-, -, ⟨⟩⟩ := hcall.unique hcall' rfl rfl
  | failed hcall hreport =>
    cases hs' with
    | returned hcall' =>
      obtain ⟨-, -, ⟨⟩⟩ := hcall.unique hcall' rfl rfl
    | failed hcall' hreport' =>
      obtain ⟨rfl, rfl, ⟨⟩⟩ := hcall.unique hcall' rfl rfl
      subst hreport
      subst hreport'
      exact ⟨rfl, rfl⟩

/-- After a turn, only objects wait if it was so before. -/
theorem Serves.objects (hs : s.Serves env turn s') (hobjects : ∀ task ∈ s.microtasks, task.object?.isSome)
    : ∀ task ∈ s'.microtasks, task.object?.isSome := by
  obtain ⟨tasks, hnext, hrest⟩ := hs.next
  intro task htask
  rw [hrest] at htask
  rcases List.mem_append.1 htask with htask | htask
  . exact hobjects task (hnext ▸ List.mem_cons_of_mem _ htask)
  . obtain ⟨c, hc, rfl⟩ := List.mem_map.1 htask
    exact object?_of_callable (hs.callable c hc)

namespace Drains

variable (hd : s.Drains env turns s')
include hd

theorem microtasks : s'.microtasks = [] := by
  induction hd with
  | nil hempty => exact hempty
  | cons _ _ ih => exact ih

theorem unique (hd' : s.Drains env turns' s'') : turns = turns' ∧ s' = s'' := by
  induction hd generalizing turns' with
  | nil hempty =>
    cases hd' with
    | nil => exact ⟨rfl, rfl⟩
    | cons hserves' _ =>
      obtain ⟨tasks, hnext, -⟩ := hserves'.next
      rw [hempty] at hnext
      cases hnext
  | cons hserves _ ih =>
    cases hd' with
    | nil hempty' =>
      obtain ⟨tasks, hnext, -⟩ := hserves.next
      rw [hempty'] at hnext
      cases hnext
    | cons hserves' hdrains' =>
      obtain ⟨rfl, rfl⟩ := hserves.unique hserves'
      obtain ⟨rfl, rfl⟩ := ih hdrains'
      exact ⟨rfl, rfl⟩

/-- What is called is what waits at first and what comes to wait. -/
theorem tasks
    : turns.map Served.task = s.microtasks ++ turns.flatMap fun turn => turn.queued.map Queued.task := by
  induction hd with
  | nil hempty =>
    rw [hempty]
    rfl
  | cons hserves _ ih =>
    obtain ⟨tasks, hnext, hrest⟩ := hserves.next
    rw [List.map_cons, ih, hnext, hrest, List.flatMap_cons, List.cons_append, List.append_assoc]

theorem reports : s'.reports = s.reports ++ turns.filterMap Served.report := by
  induction hd with
  | nil => exact (List.append_nil _).symm
  | @cons s s₁ s' turn turns hserves _ ih =>
    rw [ih, hserves.reports, List.append_assoc]
    cases hreport : turn.report with
    | none => rw [List.filterMap_cons_none hreport]; rfl
    | some report => rw [List.filterMap_cons_some hreport]; rfl

end Drains

theorem callsNext_of_next {tasks : List Value} {f : ObjectId} (hnext : s.microtasks = task :: tasks)
    (htask : task.object? = some f)
    : ∃ calls, s.CallsNext env task calls (Run.call f [] env { s with microtasks := tasks }) := by
  obtain ⟨calls, o, hcall, hqueues⟩ := Run.traced_gatedCall f [] env { s with microtasks := tasks }
  have hopen : Run.call f [] env { s with microtasks := tasks } = o := by
    rw [← Run.gatedCall_open]
    exact (hcall _).trans (Gate.pass_open calls o)
  rw [hopen]
  exact ⟨calls, .intro hnext htask hcall hqueues⟩

theorem drains_of_drainUpTo {n : Nat} {succeeded : Bool}
    (hobjects : ∀ task ∈ s.microtasks, task.object?.isSome)
    (hdrain : (Run.drainUpTo n succeeded env s).session? = some s')
    : ∃ turns, s.Drains env turns s' ∧
        Run.drainUpTo n succeeded env s = .done (succeeded && turns.all (·.report.isNone)) s' := by
  induction n generalizing s succeeded with
  | zero => cases hdrain
  | succ n ih =>
    cases hnext : s.microtasks with
    | nil =>
      have hdone : Run.drainUpTo (n + 1) succeeded env s = .done succeeded s :=
        Run.drainUpTo_of_idle hnext
      rw [hdone] at hdrain
      cases hdrain
      exact ⟨[], .nil hnext, by simp [hdone]⟩
    | cons task tasks =>
      obtain ⟨f, htask⟩ := Option.isSome_iff_exists.1 (hobjects task (hnext ▸ List.mem_cons_self))
      obtain ⟨calls, hturn⟩ : ∃ calls, s.CallsNext env task calls _ := callsNext_of_next hnext htask
      rw [Run.drainUpTo_of_called hnext htask] at hdrain ⊢
      cases hcall : Run.call f [] env { s with microtasks := tasks } with
      | done v s₁ =>
        rw [hcall] at hdrain hturn
        have hserves := Serves.returned hturn
        obtain ⟨turns, hdrains, hout⟩ := ih (hserves.objects hobjects) hdrain
        exact ⟨_, .cons hserves hdrains, hout.trans (by simp)⟩
      | thrown e s₁ =>
        rw [hcall] at hdrain hturn
        have hserves := Serves.failed hturn rfl
        obtain ⟨turns, hdrains, hout⟩ := ih (hserves.objects hobjects) hdrain
        exact ⟨_, .cons hserves hdrains, hout.trans (by simp)⟩
      | stopped why =>
        rw [hcall] at hdrain
        cases hdrain

/--
Functions that wait are called in the order in which they came to wait, once each, be it at first or
meanwhile. Each failure of them is reported once, and the result is whether there was none.
-/
theorem drain_serves (hwaiting : ∀ task ∈ s.microtasks, (s.callable? task).isSome)
    (hdrain : (Run.drain env s).session? = some s')
    : ∃ turns, s.Drains env turns s' ∧ (∀ turns' s'', s.Drains env turns' s'' → turns' = turns) ∧
        s'.microtasks = [] ∧
        turns.map Served.task
          = s.microtasks ++ turns.flatMap (fun turn => turn.queued.map Queued.task) ∧
        s'.reports = s.reports ++ turns.filterMap Served.report ∧
        Run.drain env s = .done (turns.all (·.report.isNone)) s' := by
  have hobjects : ∀ task ∈ s.microtasks, task.object?.isSome :=
    fun task htask => object?_of_callable (hwaiting task htask)
  obtain ⟨turns, hd, hout⟩ := drains_of_drainUpTo (n := env.fuel) hobjects hdrain
  exact ⟨turns, hd, fun _ _ hd' => (hd'.unique hd).1, hd.microtasks, hd.tasks, hd.reports, hout⟩

/--
A session where two functions wait, the first of which makes `read` wait, which fails without a name, and the
session after that.
-/
def queueing? : Option (Session × Session) :=
  match Session.start {} with
  | .ok s =>
    let source := "queueMicrotask(function () \x7b queueMicrotask(read); \x7d); queueMicrotask(print);"
    match Run.script source "a.js" none aloneEnv s with
    | .done _ s => (Run.drain aloneEnv s).session?.map fun s' => (s, s')
    | _ => none
  | .error _ => none

theorem queueing_spec
    : ∃ p, queueing? = some p ∧ (∀ task ∈ p.1.microtasks, (p.1.callable? task).isSome)
        ∧ p.1.microtasks.length = 2 ∧ p.1.reports = [] ∧ p.2.reports.length = 1 := by
  decide +kernel

theorem drain_of_queueing? {p : Session × Session} (hp : queueing? = some p)
    : (Run.drain aloneEnv p.1).session? = some p.2 := by
  unfold queueing? at hp
  split at hp
  . dsimp only at hp
    split at hp
    . obtain ⟨s', hdrain, rfl⟩ := Option.map_eq_some_iff.1 hp
      exact hdrain
    . cases hp
  . cases hp

/-- Two functions wait at first, and one of those that are called fails. -/
theorem drain_serves_queueing
    : ∃ s s' turns, (∀ task ∈ s.microtasks, (s.callable? task).isSome)
        ∧ (Run.drain aloneEnv s).session? = some s' ∧ s.Drains aloneEnv turns s'
        ∧ s.microtasks.length = 2 ∧ (turns.filterMap Served.report).length = 1
        ∧ Run.drain aloneEnv s = .done false s' := by
  obtain ⟨⟨s, s'⟩, hp, hwaiting, hlength, hreports, hreports'⟩ := queueing_spec
  have hdrain := drain_of_queueing? hp
  obtain ⟨turns, hd, -, -, -, hreported, hout⟩ := drain_serves hwaiting hdrain
  rw [hreported, hreports, List.nil_append] at hreports'
  refine ⟨s, s', turns, hwaiting, hdrain, hd, hlength, hreports', hout.trans ?_⟩
  have hfailed : turns.all (·.report.isNone) = false := by
    rw [List.all_eq_false]
    have hpos : 0 < (turns.filterMap Served.report).length := by omega
    obtain ⟨report, hreport⟩ := List.exists_mem_of_length_pos hpos
    obtain ⟨turn, hturn, hsome⟩ := List.mem_filterMap.1 hreport
    exact ⟨turn, hturn, by simp [hsome]⟩
  rw [hfailed]

end Session
end ScriptHost
