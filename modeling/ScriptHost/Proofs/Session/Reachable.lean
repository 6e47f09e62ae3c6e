import ScriptHost.Proofs.Discipline.Call
import ScriptHost.Proofs.Heap.Closures
import ScriptHost.Session.Start
import ScriptHost.Shell

/-!
This module contains the sessions that a host can get to, by scripts and by the functions that wait. If a
lawful discipline holds in new sessions, it holds in all of them.
-/

namespace ScriptHost

namespace Run

variable {env : Env} {s : Session} {n : Nat} {succeeded : Bool} {task : Value} {tasks : List Value}

/-! What a drain comes to by the next function that waits. -/

theorem drainUpTo_of_idle (hnext : s.microtasks = [])
    : drainUpTo (n + 1) succeeded env s = .done succeeded s := by
  rw [drainUpTo, get_bind, hnext]
  rfl

theorem drainUpTo_of_skipped (hnext : s.microtasks = task :: tasks) (htask : task.object? = none)
    : drainUpTo (n + 1) succeeded env s = drainUpTo n succeeded env { s with microtasks := tasks } := by
  have hmodify : modify (fun s => { s with microtasks := tasks }) env s
      = .done () { s with microtasks := tasks } := rfl
  rw [drainUpTo, get_bind, hnext]
  dsimp only
  rw [bind_done hmodify, htask]

/-- The function is called, a failure of it is reported, and the others follow. -/
theorem drainUpTo_of_called {f : ObjectId} (hnext : s.microtasks = task :: tasks)
    (htask : task.object? = some f)
    : drainUpTo (n + 1) succeeded env s
        =
      match call f [] env { s with microtasks := tasks } with
      | .done _ s' => drainUpTo n succeeded env s'
      | .thrown e s' => (report e >>= fun _ => drainUpTo n false) env s'
      | .stopped why => .stopped why := by
  let s₁ : Session := { s with microtasks := tasks }
  have hmodify : modify (fun s => { s with microtasks := tasks }) env s = .done () s₁ := rfl
  have hattempt := attempt_eq (call f []) env s₁
  rw [drainUpTo, get_bind, hnext]
  dsimp only
  rw [bind_done hmodify, htask]
  dsimp only
  cases hcall : call f [] env s₁ with
  | done v s' =>
    rw [hcall] at hattempt
    rw [bind_done hattempt]
  | thrown e s' =>
    rw [hcall] at hattempt
    rw [bind_done hattempt]
  | stopped why =>
    rw [hcall] at hattempt
    rw [bind_stopped hattempt]

end Run

namespace Session

variable {s s' s'' : Session} {env : Env} {e : Exception} {es es' : List Exception}

/-- The next function that waits is called. A failure of it is reported. -/
inductive Task (env : Env) (s : Session) : List Exception → Session → Prop where
  | skipped {task : Value} {tasks : List Value} (hnext : s.microtasks = task :: tasks)
      (htask : task.object? = none)
      : Task env s [] { s with microtasks := tasks }
  | returned {task : Value} {tasks : List Value} {f : ObjectId} {v : Value} {s' : Session}
      (hnext : s.microtasks = task :: tasks) (htask : task.object? = some f)
      (hcall : Run.call f [] env { s with microtasks := tasks } = .done v s')
      : Task env s [] s'
  | failed {task : Value} {tasks : List Value} {f : ObjectId} {e : Exception} {s' s'' : Session}
      (hnext : s.microtasks = task :: tasks) (htask : task.object? = some f)
      (hcall : Run.call f [] env { s with microtasks := tasks } = .thrown e s')
      (hreport : Run.report e env s' = .done () s'')
      : Task env s [e] s''

inductive Tasks (env : Env) : Session → List Exception → Session → Prop where
  | refl (s : Session) : Tasks env s [] s
  | step {s s' s'' : Session} {es es' : List Exception} (ht : Task env s es s')
      (hts : Tasks env s' es' s'')
      : Tasks env s (es ++ es') s''

/--
The sessions that a host can get to. Between two scripts or two functions it may do as it likes with the
profiler and the console.
-/
inductive Reachable : Session → Prop where
  | start {config : Config} {s : Session} (hstart : Session.start config = .ok s) : Reachable s
  | returned {env : Env} {s s' : Session} {source origin : String} {callSite : Option Location}
      {v : Value} (hr : Reachable s) (hscript : Run.script source origin callSite env s = .done v s')
      : Reachable s'
  | failed {env : Env} {s s' : Session} {source origin : String} {callSite : Option Location}
      {e : Exception} (hr : Reachable s)
      (hscript : Run.script source origin callSite env s = .thrown e s')
      : Reachable s'
  | task {env : Env} {s s' : Session} {es : List Exception} (hr : Reachable s)
      (ht : Task env s es s')
      : Reachable s'
  | host {s : Session} (hr : Reachable s) (profiler : Profiler) (console : Console)
      : Reachable { s with profiler := profiler, console := console }

/-- A host of which scripts get no sources. -/
def aloneEnv : Env :=
  ⟨{}, .unknown, 100⟩

theorem Reachable.tasks (hr : s.Reachable) (hts : Tasks env s es s') : s'.Reachable := by
  induction hts with
  | refl s => exact hr
  | step ht _ ih => exact ih (hr.task ht)

theorem tasks_of_drainUpTo {s s' : Session} {n : Nat} {succeeded b : Bool}
    (hdrain : Run.drainUpTo n succeeded env s = .done b s')
    : ∃ es, Tasks env s es s' ∧ s'.microtasks = [] ∧ b = (succeeded && es.isEmpty) := by
  induction n generalizing s succeeded with
  | zero => cases hdrain
  | succ n ih =>
    cases hnext : s.microtasks with
    | nil =>
      rw [Run.drainUpTo_of_idle hnext] at hdrain
      cases hdrain
      exact ⟨[], .refl _, hnext, by simp⟩
    | cons task tasks =>
      cases htask : task.object? with
      | none =>
        rw [Run.drainUpTo_of_skipped hnext htask] at hdrain
        obtain ⟨es, hts, hidle, hb⟩ := ih hdrain
        exact ⟨es, .step (.skipped hnext htask) hts, hidle, hb⟩
      | some f =>
        rw [Run.drainUpTo_of_called hnext htask] at hdrain
        cases hcall : Run.call f [] env { s with microtasks := tasks } with
        | done v s₁ =>
          rw [hcall] at hdrain
          obtain ⟨es, hts, hidle, hb⟩ := ih hdrain
          exact ⟨es, .step (.returned hnext htask hcall) hts, hidle, hb⟩
        | thrown e s₁ =>
          rw [hcall] at hdrain
          obtain ⟨s₂, hreport⟩ : ∃ s₂, Run.report e env s₁ = .done () s₂ := ⟨_, rfl⟩
          dsimp only at hdrain
          rw [Run.bind_done hreport] at hdrain
          obtain ⟨es, hts, hidle, hb⟩ := ih hdrain
          exact ⟨e :: es, .step (.failed hnext htask hcall hreport) hts, hidle, by simp [hb]⟩
        | stopped why =>
          rw [hcall] at hdrain
          cases hdrain

theorem start_eq {config : Config} (hstart : Session.start config = .ok s)
    : ∃ global, (Heap.exec Heap.newGlobal (.empty config.heapLimit)).1 = .ok global ∧
        s = {
          heap := (Heap.exec Heap.newGlobal (.empty config.heapLimit)).2
          global := global
          stack := { maxDepth := config.maxCallDepth } } := by
  unfold Session.start at hstart
  rcases hexec : Heap.exec Heap.newGlobal (.empty config.heapLimit) with ⟨_ | global, h⟩ <;>
    unfold Heap.exec at hexec
  . rw [hexec] at hstart
    cases hstart
  . rw [hexec] at hstart
    cases hstart
    exact ⟨global, rfl, rfl⟩

/-- A new session has no functions of scripts. -/
theorem closures_start {R : Function → ScriptId → Prop} {config : Config}
    (hstart : Session.start config = .ok s)
    : s.heap.Closures R := by
  obtain ⟨global, -, rfl⟩ := start_eq hstart
  exact Heap.keeps_newGlobal _ (Heap.closures_empty _)

/-- No script is running, and the invariant of a discipline holds. -/
structure Idle (D : Discipline) (s : Session) : Prop where
  inv : D.Inv s
  frames : s.stack.frames = #[]

variable {D : Discipline}

namespace Idle

variable (hi : s.Idle D)
include hi

theorem currentScript? : s.currentScript? = none := by
  unfold Session.currentScript? CallStack.current?
  rw [hi.frames]
  rfl

theorem coversCall (callSite : Option Location) : D.CoversCall s callSite := by
  intro loc id hid
  rw [hi.currentScript?] at hid
  cases hid

theorem of_leads (hl : D.Leads s s') : s'.Idle D :=
  ⟨hl.inv, by rw [hl.stack, hi.frames]⟩

theorem dequeue [D.Lawful] {task : Value} {tasks : List Value} (hnext : s.microtasks = task :: tasks)
    : D.Leads s { s with microtasks := tasks } :=
  Discipline.leads_change hi.inv (Discipline.Change.makes (.dequeue hnext) rfl)

variable [∀ config, D.LawfulUnder config]

theorem script (env : Env) (source origin : String) (callSite : Option Location)
    : (Run.script source origin callSite env s).Kept D s D.Gives :=
  (obeys_script (hi.coversCall callSite) source origin hi.inv).2

theorem call {env : Env} {f : ObjectId} (hf : D.Admits s.heap (.object f))
    : (Run.call f [] env s).Kept D s D.Gives :=
  (obeys_call hf (by simp) (hi.coversCall none) hi.inv).2

variable [D.Lawful]

theorem callNext {task : Value} {tasks : List Value} {f : ObjectId}
    (hnext : s.microtasks = task :: tasks) (htask : task.object? = some f) (env : Env)
    : (Run.call f [] env { s with microtasks := tasks }).Kept D s D.Gives := by
  have hl := hi.dequeue hnext
  have hadmits : D.Admits s.heap task := Discipline.Lawful.admits_task hi.inv (by simp [hnext])
  cases task with
  | object id =>
    cases htask
    exact ((hi.of_leads hl).call hadmits).trans hl
  | _ => cases htask

theorem task (ht : Task env s es s') : D.Leads s s' ∧ ∀ e ∈ es, D.Throws s' e := by
  cases ht with
  | skipped hnext _ => exact ⟨hi.dequeue hnext, by simp⟩
  | returned hnext htask hcall =>
    have hk := hi.callNext hnext htask env
    rw [hcall] at hk
    exact ⟨hk.1, by simp⟩
  | @failed _ _ _ e s' _ hnext htask hcall hreport =>
    have hk := hi.callNext hnext htask env
    rw [hcall] at hk
    obtain ⟨hl, he⟩ := hk
    have hk' : (Run.report e env s').Kept D s' Run.Any := (Run.obeys_report e hl.inv).2
    rw [hreport] at hk'
    exact ⟨hl.trans hk'.1, by simpa using hk'.1.throws he⟩

theorem tasks (hts : Tasks env s es s') : D.Leads s s' ∧ ∀ e ∈ es, D.Throws s' e := by
  induction hts with
  | refl s => exact ⟨Discipline.leads_refl hi.inv, by simp⟩
  | step ht _ ih =>
    obtain ⟨hl, he⟩ := hi.task ht
    obtain ⟨hl', he'⟩ := ih (hi.of_leads hl)
    refine ⟨hl.trans hl', ?_⟩
    -- what is known about an exception stays so in the calls after it
    intro e hmem
    rcases List.mem_append.1 hmem with hmem | hmem
    . exact hl'.throws (he e hmem)
    . exact he' e hmem

end Idle

/-- A lawful discipline that holds in new sessions holds in all that a host can get to. -/
theorem Reachable.idle [D.Lawful] [∀ config, D.LawfulUnder config]
    (hstart : ∀ config s, Session.start config = .ok s → D.Inv s) (hr : s.Reachable)
    : s.Idle D := by
  induction hr with
  | start h =>
    obtain ⟨global, -, rfl⟩ := start_eq h
    exact ⟨hstart _ _ h, rfl⟩
  | @returned env s s' source origin callSite v _ hscript ih =>
    have hk := ih.script env source origin callSite
    rw [hscript] at hk
    exact ih.of_leads hk.1
  | @failed env s s' source origin callSite e _ hscript ih =>
    have hk := ih.script env source origin callSite
    rw [hscript] at hk
    exact ih.of_leads hk.1
  | task _ ht ih => exact ih.of_leads (ih.task ht).1
  | host _ profiler console ih =>
    exact ih.of_leads (Discipline.leads_change ih.inv (Discipline.Change.makes (.host profiler console) rfl))

end Session
end ScriptHost
