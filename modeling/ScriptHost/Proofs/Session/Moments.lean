import ScriptHost.Proofs.Discipline.Tracked
import ScriptHost.Proofs.Session.Limits

/-!
This module contains the moments of a session: those between two scripts or functions, and those that a
run passes. A lawful discipline that holds in new sessions holds at all of them, and they come about in
single steps.
-/

namespace ScriptHost

namespace Run

variable {α : Type} {D : Discipline} {env : Env} {s : Session} {x x' : Run α} {P : α → Heap → Prop}
  {observer observer' : Session → Option Stop}

/-- Stop if the observer wants to. -/
def look (observer : Session → Option Stop) : Run Unit := fun _ s =>
  match observer s with
  | none => .done () s
  | some why => .stopped why

/-- A computation that is observed at its first and at its last moment. -/
def observed (observer : Session → Option Stop) (x : Run α) : Run α := do
  look observer
  let r ← attempt x
  look observer
  ofExcept r

theorem look_eq (ho : observer s = none) : look observer env s = .done () s := by
  unfold look
  rw [ho]

theorem look_eq_stopped {why : Stop} (hs : observer s = some why)
    : look observer env s = .stopped why := by
  unfold look
  rw [hs]

theorem observed_eq (hs : observer s = none)
    (hx : ∀ s', (x env s).session? = some s' → observer s' = none)
    : observed observer x env s = x env s := by
  unfold observed
  rw [bind_done (look_eq hs)]
  have hattempt := attempt_eq x env s
  cases hout : x env s with
  | done a s' =>
    rw [hout] at hattempt hx
    rw [bind_done hattempt, bind_done (look_eq (hx s' rfl))]
    rfl
  | thrown e s' =>
    rw [hout] at hattempt hx
    rw [bind_done hattempt, bind_done (look_eq (hx s' rfl))]
    rfl
  | stopped why =>
    rw [hout] at hattempt
    exact bind_stopped hattempt _

/-- An observer stops a computation at its first or its last moment, or makes no difference. -/
theorem observed_cases (observer : Session → Option Stop) (x : Run α) (env : Env) (s : Session)
    : (∃ why, observer s = some why ∧ observed observer x env s = .stopped why)
        ∨ observer s = none
          ∧ ((∃ t why, (x env s).session? = some t ∧ observer t = some why
                ∧ observed observer x env s = .stopped why)
            ∨ (∀ t, (x env s).session? = some t → observer t = none)
                ∧ observed observer x env s = x env s) := by
  cases hfirst : observer s with
  | some why => exact .inl ⟨why, rfl, bind_stopped (look_eq_stopped hfirst) _⟩
  | none =>
    refine .inr ⟨rfl, ?_⟩
    by_cases hlast : ∃ t why, (x env s).session? = some t ∧ observer t = some why
    . obtain ⟨t, why, hout, ht⟩ := hlast
      have hstopped : (attempt x >>= fun r => look observer >>= fun _ => ofExcept r) env s
          = .stopped why := by
        have hattempt := attempt_eq x env s
        cases hresult : x env s with
        | done a s' | thrown e s' =>
          rw [hresult] at hattempt hout
          cases hout
          rw [bind_done hattempt]
          exact bind_stopped (look_eq_stopped ht) _
        | stopped why' =>
          rw [hresult] at hout
          cases hout
      refine .inl ⟨t, why, hout, ht, ?_⟩
      unfold observed
      rw [bind_done (look_eq hfirst)]
      exact hstopped
    . have hsilent : ∀ t, (x env s).session? = some t → observer t = none := by
        intro t hout
        refine Option.eq_none_iff_forall_ne_some.2 fun why hwhy => ?_
        exact hlast ⟨t, why, hout, hwhy⟩
      exact .inr ⟨hsilent, observed_eq hfirst hsilent⟩

theorem observer_of_observed (hout : (observed observer x env s).session? = some s')
    : observer s' = none := by
  rcases observed_cases observer x env s with
    ⟨_, -, hstopped⟩ | ⟨-, ⟨_, _, -, -, hstopped⟩ | ⟨hlast, heq⟩⟩
  . rw [hstopped] at hout
    cases hout
  . rw [hstopped] at hout
    cases hout
  . exact hlast s' (heq ▸ hout)

/-- Two observers make the same difference if they stop at the same moments for the same reasons. -/
theorem observed_congr (hfirst : observer s = observer' s) (hx : x env s = x' env s)
    (hlast : ∀ t, (x env s).session? = some t → observer t = observer' t)
    : observed observer x env s = observed observer' x' env s := by
  have hlook : ∀ {t} (f : Unit → Run α), observer t = observer' t →
      (look observer >>= f) env t = (look observer' >>= f) env t := by
    intro t f ht
    change Run.bind (look observer) f env t = Run.bind (look observer') f env t
    unfold Run.bind look
    rw [ht]
  have hattempt := attempt_eq x env s
  have hattempt' := attempt_eq x' env s
  rw [← hx] at hattempt'
  unfold observed
  rw [hlook _ hfirst]
  cases hs : observer' s with
  | some why => rw [bind_stopped (look_eq_stopped hs), bind_stopped (look_eq_stopped hs)]
  | none =>
    rw [bind_done (look_eq hs), bind_done (look_eq hs)]
    cases hout : x env s with
    | done a t | thrown e t =>
      rw [hout] at hattempt hattempt' hlast
      rw [bind_done hattempt, bind_done hattempt', hlook _ (hlast t rfl)]
    | stopped why =>
      rw [hout] at hattempt hattempt'
      rw [bind_stopped hattempt, bind_stopped hattempt']

/-- It makes no difference which of two observers it is, if they are the same where the invariant holds. -/
theorem Agree.observed (hx : Agree D env s P x x') (ho : ∀ s', D.Inv s' → observer s' = observer' s')
    : Agree D env s P (Run.observed observer x) (Run.observed observer' x') := by
  intro hs
  obtain ⟨heq, hk⟩ := hx hs
  have hlast : ∀ t, (x env s).session? = some t → observer t = observer' t := by
    intro t hout
    cases hresult : x env s with
    | done a s' | thrown e s' =>
      rw [hresult] at hout hk
      cases hout
      exact ho t hk.1.inv
    | stopped why =>
      rw [hresult] at hout
      cases hout
  refine ⟨observed_congr (ho s hs) heq hlast, ?_⟩
  rcases observed_cases observer x env s with ⟨_, -, hout⟩ | ⟨-, ⟨_, _, -, -, hout⟩ | ⟨-, hout⟩⟩
  . rw [hout]
    trivial
  . rw [hout]
    trivial
  . rw [hout]
    exact hk

/-- Someone who never stops is nobody. -/
theorem observed_nobody (x : Run α) : observed (fun _ => none) x = x := by
  funext env s
  exact observed_eq rfl fun _ _ => rfl

end Run

/--
The evaluation that goes `fuel` rules deep under an observer, who may stop it. The observer looks at the
session before and after every expression, statement, call and script, and in the frame and at the depth
at which they run.
-/
def observedEvaluator (observer : Session → Option Stop) : (fuel : Nat) → Evaluator
  | 0 => evaluator 0
  | fuel + 1 =>
    let ev := observedEvaluator observer fuel
    {
      expr := fun e =>
        Run.observed observer (Eval.nested e.loc (Run.observed observer (Eval.exprRule ev e)))
      stmt := fun st => Run.observed observer (Eval.stmt ev st)
      call := fun callee args callSite =>
        Run.observed observer
          (Eval.callWith (fun body => Run.observed observer (Eval.functionBody ev body)) ev callee
            args callSite)
      script := fun source origin callSite =>
        Run.observed observer
          (Eval.scriptWith (fun stmts => Run.observed observer (Eval.program ev stmts)) source
            origin callSite)
    }

theorem observedEvaluator_nobody (n : Nat) : observedEvaluator (fun _ => none) n = evaluator n := by
  induction n with
  | zero => rfl
  | succ n ih =>
    unfold observedEvaluator
    simp only [ih, Run.observed_nobody]
    rfl

theorem observedEvaluator_agree {D : Discipline} {env : Env} [D.LawfulUnder env.config]
    {observer observer' : Session → Option Stop} (ho : ∀ s, D.Inv s → observer s = observer' s) (fuel : Nat)
    : (observedEvaluator observer fuel).Agree D env (observedEvaluator observer' fuel) := by
  induction fuel with
  | zero => exact evaluator_agree 0
  | succ fuel ih =>
    refine ⟨?_, ?_, ?_, ?_⟩
    . intro s e hr
      refine Run.Agree.observed ?_ ho
      apply Eval.agree_nested (hr.covers e.loc_mem_locations)
      refine Run.Agree.observed ?_ ho
      exact Eval.agree_exprRule ih hr
    . intro s st hr
      exact (Eval.agree_stmt ih hr).observed ho
    . intro s callee args callSite hcallee hargs hc
      refine Run.Agree.observed ?_ ho
      apply Eval.agree_callWith ih _ hcallee hargs hc
      intro s' f hr
      exact (Eval.agree_functionBody ih hr).observed ho
    . intro s callSite hc source origin
      refine Run.Agree.observed ?_ ho
      apply Eval.agree_scriptWith _ hc source origin
      intro s' stmts hr
      exact (Eval.agree_program ih hr).observed ho

namespace Entry

variable {α : Type} {D : Discipline} {env : Env} {s t : Session} {fuel : Nat}

/-- The code may run where the session is, and the values are ones that scripts get hold of. -/
def Admitted (D : Discipline) (s : Session) : Entry α → Prop
  | expr e => D.Runs s e.locations
  | stmt st => D.Runs s st.locations
  | block stmts => D.Runs s (Stmt.locationsAll stmts)
  | call callee args callSite =>
    D.Admits s.heap (.object callee) ∧ (∀ v ∈ args, D.Admits s.heap v) ∧ D.CoversCall s callSite
  | native _ args loc => (∀ v ∈ args, D.Admits s.heap v) ∧ D.Covers s loc
  | script _ _ callSite => D.CoversCall s callSite

theorem agree [D.LawfulUnder env.config] {ev ev' : Evaluator} (hev : ev.Agree D env ev')
    {entry : Entry α} (ha : entry.Admitted D s)
    : Run.Agree D env s Run.Any (entry.run ev) (entry.run ev') := by
  cases entry with
  | expr e => exact (hev.expr ha).mono fun _ _ _ => trivial
  | stmt st => exact (hev.stmt ha).mono fun _ _ _ => trivial
  | block stmts => exact (Eval.agree_block hev ha).mono fun _ _ _ => trivial
  | call callee args callSite => exact (hev.call ha.1 ha.2.1 ha.2.2).mono fun _ _ _ => trivial
  | native builtin args loc => exact (Eval.agree_native hev ha.2 builtin ha.1).mono fun _ _ _ => trivial
  | script source origin callSite => exact (hev.script ha source origin).mono fun _ _ _ => trivial

/--
An evaluation passes the session `t` if it makes a difference to be observed by someone who stops nowhere
but there.
-/
def Passes (entry : Entry α) (fuel : Nat) (env : Env) (s t : Session) : Prop :=
  ∃ observer : Session → Option Stop, (∀ s', observer s' ≠ none → s' = t) ∧
    entry.run (observedEvaluator observer fuel) env s ≠ entry.run (evaluator fuel) env s

/--
The property holds at all moments of an evaluation: it makes no difference to be observed by someone who
stops only where the property does not hold.
-/
def Throughout (entry : Entry α) (fuel : Nat) (env : Env) (s : Session) (P : Session → Prop) : Prop :=
  ∀ observer : Session → Option Stop, (∀ t, P t → observer t = none) →
    entry.run (observedEvaluator observer fuel) env s = entry.run (evaluator fuel) env s

variable {entry : Entry α} {P : Session → Prop}

theorem throughout_true : entry.Throughout fuel env s fun _ => True := by
  intro observer ho
  have hnobody : observer = fun _ => none := funext fun t => ho t trivial
  rw [hnobody, observedEvaluator_nobody]

theorem Throughout.mono {Q : Session → Prop} (hp : entry.Throughout fuel env s P) (hPQ : ∀ t, P t → Q t)
    : entry.Throughout fuel env s Q :=
  fun observer ho => hp observer fun t ht => ho t (hPQ t ht)

theorem Throughout.of_passes (hp : entry.Throughout fuel env s P) (ht : entry.Passes fuel env s t) : P t := by
  obtain ⟨observer, hblind, hdiffers⟩ := ht
  apply Classical.byContradiction
  intro hnot
  apply hdiffers
  apply hp
  intro s' hs'
  apply Classical.byContradiction
  intro hstops
  exact hnot (hblind s' hstops ▸ hs')

variable [D.LawfulUnder env.config]

/-- The invariant of a discipline holds at all moments, too. -/
theorem Throughout.and_inv (hp : entry.Throughout fuel env s P) (hs : D.Inv s) (ha : entry.Admitted D s)
    : entry.Throughout fuel env s fun t => P t ∧ D.Inv t := by
  classical
  intro observer ho
  -- where the invariant holds, the observer might as well stop only where the property does not hold
  let other : Session → Option Stop := fun t => if P t then none else observer t
  have hsame : ∀ t, D.Inv t → observer t = other t := by
    intro t hinv
    by_cases ht : P t
    . rw [ho t ⟨ht, hinv⟩, show other t = none from if_pos ht]
    . rw [show other t = observer t from if_neg ht]
  have hagree : (observedEvaluator observer fuel).Agree D env (observedEvaluator other fuel) :=
    observedEvaluator_agree hsame fuel
  rw [(agree hagree ha hs).1]
  exact hp other fun t ht => if_pos ht

theorem inv_of_passes (hs : D.Inv s) (ha : entry.Admitted D s) (hp : entry.Passes fuel env s t)
    : D.Inv t :=
  ((throughout_true.and_inv hs ha).of_passes hp).2

theorem leads_of_session? (hs : D.Inv s) (ha : entry.Admitted D s) {s' : Session}
    (hout : (entry.run (evaluator fuel) env s).session? = some s')
    : D.Leads s s' := by
  have hagree : (evaluator fuel).Agree D env (evaluator fuel) := evaluator_agree fuel
  have hk := (agree hagree ha hs).2
  cases hresult : entry.run (evaluator fuel) env s with
  | done a s'' | thrown e s'' =>
    rw [hresult] at hout hk
    cases hout
    exact hk.1
  | stopped why =>
    rw [hresult] at hout
    cases hout

theorem proceeds_of_passes (hs : D.Inv s) (ha : entry.Admitted D s) (hp : entry.Passes fuel env s t)
    : D.Proceeds s t := by
  have hs' : (D.tracked (· = s)).Inv s := D.inv_tracked_self hs
  exact (inv_of_passes hs' ha hp).2 s rfl

theorem proceeds_of_session? (hs : D.Inv s) (ha : entry.Admitted D s) {s' : Session}
    (hout : (entry.run (evaluator fuel) env s).session? = some s')
    : D.Proceeds s s' := by
  have hs' : (D.tracked (· = s)).Inv s := D.inv_tracked_self hs
  exact (leads_of_session? hs' ha hout).goes.2

/-- A script passes the session that it ends with, among others. -/
theorem passes_of_session? {source origin : String} {callSite : Option Location} {s' : Session}
    (hout : ((script source origin callSite).run (evaluator (fuel + 1)) env s).session? = some s')
    : (script source origin callSite).Passes (fuel + 1) env s s' := by
  classical
  let observer : Session → Option Stop := fun t => if t = s' then some .outOfFuel else none
  refine ⟨observer, ?_, ?_⟩
  . intro t ht
    apply Classical.byContradiction
    intro hne
    exact ht (if_neg hne)
  . intro heq
    rw [← heq] at hout
    have hnone : observer s' = none := Run.observer_of_observed hout
    have hsome : observer s' = some .outOfFuel := if_pos rfl
    rw [hsome] at hnone
    cases hnone

end Entry

namespace Session

variable {s s' t : Session} {D : Discipline}

/-- What a host begins with between two scripts or functions: a script, or the next function that waits. -/
inductive Begins (s : Session) : Session → Entry Value → Prop where
  | script (source origin : String) (callSite : Option Location)
    : Begins s s (.script source origin callSite)
  | task {task : Value} {tasks : List Value} {f : ObjectId} (hnext : s.microtasks = task :: tasks)
      (htask : task.object? = some f)
    : Begins s { s with microtasks := tasks } (.call f [] none)

/-- What a host does in one turn: it runs a script, or calls the next function that waits. -/
inductive Turn (s : Session) : Session → Prop where
  | returned {env : Env} {s' : Session} {source origin : String} {callSite : Option Location} {v : Value}
      (hscript : Run.script source origin callSite env s = .done v s')
    : Turn s s'
  | failed {env : Env} {s' : Session} {source origin : String} {callSite : Option Location}
      {e : Exception} (hscript : Run.script source origin callSite env s = .thrown e s')
    : Turn s s'
  | task {env : Env} {s' : Session} {es : List Exception} (ht : Task env s es s') : Turn s s'
  | host (profiler : Profiler) (console : Console)
    : Turn s { s with profiler := profiler, console := console }

abbrev Turns : Session → Session → Prop :=
  Relation.ReflTransGen Turn

/-- The sessions at all later moments, be a script running or not. -/
inductive Later (s : Session) : Session → Prop where
  | idle {t : Session} (ht : Turns s t) : Later s t
  | running {s₁ s₂ t : Session} {entry : Entry Value} {fuel : Nat} {env : Env} (ht : Turns s s₁)
      (hb : s₁.Begins s₂ entry) (hp : entry.Passes fuel env s₂ t)
    : Later s t

/-- The sessions that a host comes by. -/
def Visited (t : Session) : Prop :=
  ∃ config s, Session.start config = .ok s ∧ s.Later t

theorem Turn.reachable (ht : s.Turn s') (hr : s.Reachable) : s'.Reachable := by
  cases ht with
  | returned hscript => exact hr.returned hscript
  | failed hscript => exact hr.failed hscript
  | task ht => exact hr.task ht
  | host profiler console => exact hr.host profiler console

theorem reachable_iff_turns
    : s.Reachable ↔ ∃ config s₀, Session.start config = .ok s₀ ∧ Turns s₀ s := by
  constructor
  . intro hr
    have htail : ∀ {s s' : Session}, (∃ config s₀, Session.start config = .ok s₀ ∧ Turns s₀ s) →
        s.Turn s' → ∃ config s₀, Session.start config = .ok s₀ ∧ Turns s₀ s' :=
      fun ⟨config, s₀, hstart, hts⟩ ht => ⟨config, s₀, hstart, hts.tail ht⟩
    induction hr with
    | start hstart => exact ⟨_, _, hstart, .refl⟩
    | returned _ hscript ih => exact htail ih (.returned hscript)
    | failed _ hscript ih => exact htail ih (.failed hscript)
    | task _ ht ih => exact htail ih (.task ht)
    | host _ profiler console ih => exact htail ih (.host profiler console)
  . rintro ⟨config, s₀, hstart, hts⟩
    induction hts with
    | refl => exact .start hstart
    | tail _ ht ih => exact ht.reachable ih

theorem Reachable.visited (hr : s.Reachable) : s.Visited := by
  obtain ⟨config, s₀, hstart, hts⟩ := reachable_iff_turns.1 hr
  exact ⟨config, s₀, hstart, .idle hts⟩

/-- A new session, and that after a script. -/
def scripted? (source : String) : Option (Session × Session) :=
  match Session.start {} with
  | .ok s =>
    match Run.script source "a.js" none aloneEnv s with
    | .done _ s' => some (s, s')
    | _ => none
  | .error _ => none

theorem turn_of_scripted? {source : String} {p : Session × Session} (hp : scripted? source = some p)
    : Session.start {} = .ok p.1 ∧ p.1.Turn p.2 := by
  unfold scripted? at hp
  split at hp
  . next hstart =>
    split at hp
    . next hscript =>
      cases hp
      exact ⟨hstart, .returned hscript⟩
    . cases hp
  . cases hp

theorem visited_of_scripted? {source : String} {p : Session × Session} (hp : scripted? source = some p)
    : p.2.Visited := by
  obtain ⟨hstart, hturn⟩ := turn_of_scripted? hp
  exact ⟨_, _, hstart, .idle (.single hturn)⟩

theorem Idle.tracked (hi : s.Idle D) : s.Idle (D.tracked (· = s)) :=
  ⟨D.inv_tracked_self hi.inv, hi.frames⟩

section

variable [D.Lawful]

theorem Idle.begins (hi : s.Idle D) {entry : Entry Value} (hb : s.Begins s' entry)
    : D.Inv s' ∧ entry.Admitted D s' := by
  cases hb with
  | script source origin callSite => exact ⟨hi.inv, hi.coversCall callSite⟩
  | @task task tasks f hnext htask =>
    have hl := hi.dequeue hnext
    have hadmits : D.Admits s.heap task := Discipline.Lawful.admits_task hi.inv (by simp [hnext])
    refine ⟨hl.inv, ?_, by simp, (hi.of_leads hl).coversCall none⟩
    cases task with
    | object id =>
      cases htask
      exact hl.admits hadmits
    | _ => cases htask

variable [∀ config, D.LawfulUnder config]

theorem Idle.turn (hi : s.Idle D) (ht : Turn s s') : D.Leads s s' := by
  cases ht with
  | @returned env _ source origin callSite _ hscript =>
    have hk := hi.script env source origin callSite
    rw [hscript] at hk
    exact hk.1
  | @failed env _ source origin callSite _ hscript =>
    have hk := hi.script env source origin callSite
    rw [hscript] at hk
    exact hk.1
  | task ht => exact (hi.task ht).1
  | host profiler console =>
    exact Discipline.leads_change hi.inv (Discipline.Change.makes (.host profiler console) rfl)

theorem Idle.turns (hi : s.Idle D) (ht : Turns s s') : s'.Idle D := by
  induction ht with
  | refl => exact hi
  | tail _ ht ih => exact ih.of_leads (ih.turn ht)

theorem Idle.inv_of_later (hi : s.Idle D) (hl : s.Later t) : D.Inv t := by
  cases hl with
  | idle ht => exact (hi.turns ht).inv
  | running ht hb hp =>
    obtain ⟨hinv, hadmitted⟩ := (hi.turns ht).begins hb
    exact Entry.inv_of_passes hinv hadmitted hp

theorem Idle.proceeds_of_later (hi : s.Idle D) (hl : s.Later t) : D.Proceeds s t :=
  (hi.tracked.inv_of_later hl).2 s rfl

/-- A lawful discipline that holds in new sessions holds at all moments. -/
theorem Visited.inv (hstart : ∀ config s, Session.start config = .ok s → D.Inv s) (hv : t.Visited)
    : D.Inv t := by
  obtain ⟨config, s, hs, hl⟩ := hv
  have hi : s.Idle D := Reachable.idle hstart (.start hs)
  exact hi.inv_of_later hl

end

end Session
end ScriptHost
