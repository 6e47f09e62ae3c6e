import ScriptHost.Proofs.Queue.Drain

/-!
This module contains the units of a session: a unit is a script and the functions that come to wait. A unit
throws nothing, and after it no function waits and the calls are running that were running before.
-/

namespace ScriptHost

namespace Run

variable {α β : Type} {D : Discipline} {env : Env} {s s' : Session}

theorem bind_eq_done {x : Run α} {f : α → Run β} {b : β}
    : (x >>= f) env s = .done b s' ↔ ∃ a s₁, x env s = .done a s₁ ∧ f a env s₁ = .done b s' := by
  constructor
  . intro hbind
    cases hx : x env s with
    | done a s₁ =>
      rw [bind_done hx] at hbind
      exact ⟨a, s₁, rfl, hbind⟩
    | thrown e s₁ =>
      rw [bind_thrown hx] at hbind
      cases hbind
    | stopped why =>
      rw [bind_stopped hx] at hbind
      cases hbind
  . rintro ⟨a, s₁, hx, hf⟩
    rw [bind_done hx]
    exact hf

theorem discard_eq_done {x : Run α}
    : (discard x : Run Unit) env s = .done () s' ↔ ∃ a, x env s = .done a s' := by
  constructor
  . intro hx
    obtain ⟨a, _, hout, ⟨⟩⟩ := bind_eq_done.1 hx
    exact ⟨a, hout⟩
  . rintro ⟨a, hout⟩
    exact bind_done hout _

/-! Computations that throw nothing. -/

def Calm (x : Run α) : Prop :=
  ∀ env s e s', x env s ≠ .thrown e s'

theorem Calm.bind {x : Run α} {f : α → Run β} (hx : Calm x) (hf : ∀ a, Calm (f a)) : Calm (x >>= f) := by
  intro env s e s' hbind
  cases hout : x env s with
  | done a s₁ =>
    rw [bind_done hout] at hbind
    exact hf a env s₁ e s' hbind
  | thrown e₁ s₁ => exact hx env s e₁ s₁ hout
  | stopped why =>
    rw [bind_stopped hout] at hbind
    cases hbind

theorem Calm.done {x : Run α} (hx : Calm x) (hout : (x env s).session? = some s')
    : ∃ a, x env s = .done a s' := by
  cases hresult : x env s with
  | done a s₁ =>
    rw [hresult] at hout
    cases hout
    exact ⟨a, rfl⟩
  | thrown e s₁ => exact absurd hresult (hx env s e s₁)
  | stopped why =>
    rw [hresult] at hout
    cases hout

theorem Calm.discard {x : Run α} (hx : Calm x) : Calm (discard x) :=
  hx.bind fun _ _ _ _ _ => nofun

theorem calm_pure (a : α) : Calm (pure a : Run α) := fun _ _ _ _ => nofun

theorem calm_stop (why : Stop) : Calm (stop why : Run α) := fun _ _ _ _ => nofun

theorem calm_get : Calm get := fun _ _ _ _ => nofun

theorem calm_env : Calm Run.env := fun _ _ _ _ => nofun

theorem calm_modify (f : Session → Session) : Calm (modify f) := fun _ _ _ _ => nofun

theorem calm_attempt (x : Run α) : Calm (attempt x) := by
  intro env s e s' hthrown
  rw [attempt_eq] at hthrown
  cases hout : x env s <;> rw [hout] at hthrown <;> cases hthrown

theorem calm_forM {as : List α} {f : α → Run PUnit} (hf : ∀ a, Calm (f a)) : Calm (as.forM f) := by
  induction as with
  | nil => exact calm_pure _
  | cons a as ih => exact (hf a).bind fun _ => ih

theorem calm_load (name : String) : Calm (load name) := by
  apply calm_env.bind
  intro env
  cases env.sources name with
  | some answer => exact calm_pure answer
  | none => exact calm_stop _

theorem calm_report (e : Exception) : Calm (report e) :=
  calm_get.bind fun _ => calm_modify _

theorem calm_display (v : Value) : Calm (display v) := by
  apply calm_env.bind
  intro env
  apply calm_get.bind
  intro s
  cases (s.displayContext env.config).display? [] v env.fuel with
  | some text => exact calm_pure text
  | none => exact calm_stop _

theorem calm_execute (source origin : String) (print report : Bool)
    : Calm (execute source origin print report) := by
  apply (calm_attempt _).bind
  intro r
  cases r with
  | ok v =>
    dsimp only
    split
    . exact (calm_display v).bind fun _ => (calm_modify _).bind fun _ => calm_pure true
    . exact calm_pure true
  | error e =>
    dsimp only
    split
    . exact (calm_report e).bind fun _ => calm_pure false
    . exact calm_pure false

theorem calm_drainUpTo (n : Nat) (succeeded : Bool) : Calm (drainUpTo n succeeded) := by
  induction n generalizing succeeded with
  | zero => exact calm_stop _
  | succ n ih =>
    apply calm_get.bind
    intro s
    cases s.microtasks with
    | nil => exact calm_pure succeeded
    | cons task tasks =>
      apply (calm_modify _).bind
      intro _
      cases task.object? with
      | none => exact ih succeeded
      | some f =>
        apply (calm_attempt _).bind
        intro r
        cases r with
        | ok _ => exact ih succeeded
        | error e => exact (calm_report e).bind fun _ => ih false

theorem calm_drain : Calm drain :=
  calm_env.bind fun env => calm_drainUpTo env.fuel true

/-! Executions and drains keep any discipline. -/

section Lawful

variable [D.LawfulUnder env.config]

theorem obeys_execute (hc : D.CoversCall s none) (source origin : String) (print report : Bool)
    : Obeys D env s Any (execute source origin print report) := by
  apply Agree.attempt (obeys_script hc source origin)
  . intro v s' hl hv
    dsimp only
    split
    . apply (obeys_display v).bind
      intro text s₁ _ _
      apply (obeys_write _ _).bind
      intro _ s₂ _ _
      exact obeys_pure trivial
    . exact obeys_pure trivial
  . intro e s' hl he
    dsimp only
    split
    . apply (obeys_report e).bind
      intro _ s₁ _ _
      exact obeys_pure trivial
    . exact obeys_pure trivial

theorem obeys_drainUpTo (hc : D.CoversCall s none) (n : Nat) (succeeded : Bool)
    : Obeys D env s Any (drainUpTo n succeeded) := by
  induction n generalizing s succeeded with
  | zero => exact obeys_stop _
  | succ n ih =>
    intro hs
    refine agree_get ?_ hs
    cases hnext : s.microtasks with
    | nil => exact obeys_pure trivial
    | cons task tasks =>
      have hl := Discipline.leads_change hs (Discipline.Change.makes (.dequeue hnext) rfl)
      have hadmits : D.Admits s.heap task := Discipline.Lawful.admits_task hs (by simp [hnext])
      apply agree_modify (Discipline.Change.makes (.dequeue hnext) rfl)
      cases task with
      | object f =>
        have hc₁ := hl.coversCall hc
        apply Agree.attempt (obeys_call (hl.admits hadmits) (by simp) hc₁)
        . intro _ s₂ hl₂ _
          exact ih (hl₂.coversCall hc₁) _
        . intro e s₂ hl₂ _
          apply (obeys_report e).bind
          intro _ s₃ hl₃ _
          exact ih ((hl₂.trans hl₃).coversCall hc₁) _
      | _ => exact ih (hl.coversCall hc) _

theorem obeys_drain (hc : D.CoversCall s none) : Obeys D env s Any drain :=
  agree_env (obeys_drainUpTo hc env.fuel true)

end Lawful

end Run

namespace Discipline

/-- Nothing is asked. -/
abbrev free : Discipline :=
  invariant (fun _ => True) fun _ _ => True

instance (config : Config) : free.LawfulUnder config where
  enter _ _ := trivial
  leave _ _ _ := ⟨trivial, trivial⟩
  throws_leave _ _ _ _ := trivial

end Discipline

namespace Session

variable {env : Env} {s s' : Session}

/-- A unit is run: a script and then the functions that wait. -/
inductive Performs (env : Env) (s : Session) (source origin : String) (print : Bool)
    : Bool → Session → Prop where
  | intro {executed drained : Bool} {s₁ s' : Session}
      (hexecute : Run.execute source origin print true env s = .done executed s₁)
      (hdrain : Run.drain env s₁ = .done drained s')
      : Performs env s source origin print (executed && drained) s'

/-- No function waits, and the calls that are running are those of another session. -/
structure Ready (s s' : Session) : Prop where
  microtasks : s'.microtasks = []
  stack : s'.stack = s.stack

theorem Ready.trans {s'' : Session} (hr : s.Ready s') (hr' : s'.Ready s'') : s.Ready s'' :=
  ⟨hr'.microtasks, hr'.stack.trans hr.stack⟩

theorem Performs.ready {source origin : String} {print : Bool}
    {ok : Bool} (hp : s.Performs env source origin print ok s') : s.Ready s' := by
  cases hp with
  | @intro _ _ s₁ _ hexecute hdrain =>
    have hcovers : ∀ s : Session, Discipline.free.CoversCall s none := fun _ _ _ _ => trivial
    have hobeys : Run.Obeys .free env s Run.Any (Run.execute source origin print true) :=
      Run.obeys_execute (hcovers s) source origin print true
    have hobeys' : Run.Obeys .free env s₁ Run.Any Run.drain := Run.obeys_drain (hcovers s₁)
    have hk := (hobeys trivial).2
    have hk' := (hobeys' trivial).2
    rw [hexecute] at hk
    rw [hdrain] at hk'
    obtain ⟨_, -, hidle, -⟩ := tasks_of_drainUpTo (hdrain : Run.drainUpTo _ _ env s₁ = _)
    exact ⟨hidle, hk'.1.stack.trans hk.1.stack⟩

end Session
end ScriptHost
