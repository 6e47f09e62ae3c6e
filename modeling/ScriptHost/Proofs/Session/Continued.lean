import ScriptHost.Proofs.Session.WellFormed

/-!
This module contains what becomes of a session, at any moment of it: by more scripts, by calls of functions
that wait or that scripts hold, and by the code of a running script. All objects keep their nature in that,
and all global constants their values.
-/

namespace ScriptHost

/-- Code has a script to run in, and values are ones that scripts may hold. -/
def Entry.Proper {α : Type} (s : Session) : Entry α → Prop
  | expr _ | stmt _ | block _ => s.currentScript?.isSome
  | call callee args _ => s.heap.HasPublic (.object callee) ∧ ∀ v ∈ args, s.heap.HasPublic v
  | native _ args _ => ∀ v ∈ args, s.heap.HasPublic v
  | script .. => True

namespace Session

variable {s t : Session} {name : String} {v : Value}

theorem WellFormed.admitted (hs : s.WellFormed) {α : Type} {entry : Entry α} (hentry : entry.Proper s)
    : entry.Admitted .encapsulated s := by
  have hcovers : ∀ loc, Discipline.encapsulated.Covers s loc :=
    fun _ id hid => ⟨id, rfl, hs.current hid⟩
  have hruns : ∀ ls, s.currentScript?.isSome → Discipline.encapsulated.Runs s ls := by
    intro ls hcurrent
    obtain ⟨id, hid⟩ := Option.isSome_iff_exists.1 hcurrent
    exact ⟨id, hid, hs.current hid⟩
  cases entry with
  | expr | stmt | block => exact hruns _ hentry
  | call => exact ⟨hentry.1, hentry.2, fun _ => hcovers _⟩
  | native => exact ⟨hentry, hcovers _⟩
  | script => exact fun _ => hcovers _

/-- What may become of a session, be a script running in it or not. -/
inductive Continues (s : Session) : Session → Prop where
  | passes {α : Type} {entry : Entry α} {fuel : Nat} {env : Env} {t : Session} (hentry : entry.Proper s)
      (hp : entry.Passes fuel env s t)
    : Continues s t
  | ends {α : Type} {entry : Entry α} {fuel : Nat} {env : Env} {t : Session} (hentry : entry.Proper s)
      (hout : (entry.run (evaluator fuel) env s).session? = some t)
    : Continues s t
  | later {t : Session} (hr : s.Reachable) (hl : s.Later t) : Continues s t
  /-- The rest of what is running is made of such steps, too. -/
  | step {t : Session} (hstep : Discipline.encapsulated.Step s t) : Continues s t

/-- All that becomes of a session comes about in steps. -/
theorem Continues.proceeds (hc : s.Continues t) (hs : s.WellFormed)
    : Discipline.encapsulated.Proceeds s t := by
  cases hc with
  | passes hentry hp => exact Entry.proceeds_of_passes hs (hs.admitted hentry) hp
  | ends hentry hout => exact Entry.proceeds_of_session? hs (hs.admitted hentry) hout
  | later hr hl => exact hr.idle_encapsulated.proceeds_of_later hl
  | step hstep => exact .single hstep

theorem keeps_of_step (hs : s.WellFormed) (hstep : Discipline.encapsulated.Step s t) : s.Keeps t := by
  cases hstep with
  | change hc => exact (Discipline.encapsulated_change hs hc).1
  | move => exact ⟨Heap.retains_refl _, rfl, List.prefix_rfl, fun hx => ⟨hx.const, hx.property⟩⟩

theorem wellFormed_of_proceeds (hs : s.WellFormed) (hp : Discipline.encapsulated.Proceeds s t)
    : t.WellFormed :=
  Discipline.inv_of_proceeds (fun hs hc => (Discipline.encapsulated_change hs hc).2) hs hp

theorem keeps_of_proceeds (hs : s.WellFormed) (hp : Discipline.encapsulated.Proceeds s t)
    : s.Keeps t := by
  induction hp with
  | refl => exact keeps_refl s
  | tail hp hstep ih => exact ih.trans (keeps_of_step (wellFormed_of_proceeds hs hp) hstep)

abbrev Continuation : Session → Session → Prop :=
  Relation.ReflTransGen Continues

theorem wellFormed_continuation (hs : s.WellFormed) (hc : Continuation s t)
    : t.WellFormed ∧ s.Keeps t := by
  induction hc with
  | refl => exact ⟨hs, keeps_refl s⟩
  | tail _ hc ih =>
    have hp := hc.proceeds ih.1
    exact ⟨wellFormed_of_proceeds ih.1 hp, ih.2.trans (keeps_of_proceeds ih.1 hp)⟩

/--
At every moment of a session, its values name public objects, functions that wait can be called, scopes and
code are where they are looked for, and looking up a name goes from every scope to the one around it. In
whatever becomes of the session, every object keeps its stable id and its nature: the kind that it is of,
the function of a closure, and the scope around it.
-/
theorem visited_wellFormed (hv : s.Visited)
    : s.WellFormed
        ∧ (∀ name id, s.heap.findBinding? name id
            =
          match s.heap.bindingIndex? id name with
          | some i => some (id, i)
          | none =>
            match s.heap.content id with
            | .scope (some outer) _ => s.heap.findBinding? name outer
            | _ => none)
        ∧ ∀ t, Continuation s t → t.WellFormed ∧ ∀ id, s.heap.Has id → t.heap.Has id ∧
            (t.heap.object id).stableId = (s.heap.object id).stableId ∧
            (t.heap.content id).fixed = (s.heap.content id).fixed := by
  have hs := hv.wellFormed
  refine ⟨hs, fun name id => hs.heap.findBinding?_eq name id, ?_⟩
  intro t hc
  obtain ⟨ht, hk⟩ := wellFormed_continuation hs hc
  exact ⟨ht, fun id hid => hk.heap id hid⟩

/-- A session in which a function waits that sees the variable of a call, and the session after it. -/
def waiting? : Option (Session × Session) :=
  match Session.start {} with
  | .ok s =>
    let source := "function f(x) \x7b queueMicrotask(function g() \x7b return x; \x7d); \x7d f(1);"
    match Run.script source "a.js" none aloneEnv s with
    | .done _ s =>
      match s.microtasks with
      | .object f :: tasks =>
        match Run.call f [] aloneEnv { s with microtasks := tasks } with
        | .done _ s' => some (s, s')
        | _ => none
      | _ => none
    | _ => none
  | .error _ => none

theorem waiting_spec : ∃ p, waiting? = some p ∧ p.1.microtasks.length = 1 := by
  decide +kernel

theorem reachable_of_waiting? {p : Session × Session} (hp : waiting? = some p)
    : p.1.Reachable ∧ p.1.Turn p.2 := by
  unfold waiting? at hp
  split at hp
  . next s hstart =>
    dsimp only at hp
    split at hp
    . next hscript =>
      split at hp
      . next hnext =>
        split at hp
        . next hcall =>
          cases hp
          exact ⟨.returned (.start hstart) hscript, .task (.returned hnext rfl hcall)⟩
        . cases hp
      . cases hp
    . cases hp
  . cases hp

/-- A session in which a function waits, and what it is after the call of that function. -/
theorem visited_wellFormed_waiting
    : ∃ s t, s.Visited ∧ s.microtasks.length = 1 ∧ Continuation s t ∧ s.WellFormed ∧ t.WellFormed := by
  obtain ⟨⟨s, t⟩, hp, hlength⟩ := waiting_spec
  obtain ⟨hr, ht⟩ := reachable_of_waiting? hp
  have hc : Continuation s t := .single (.later hr (.idle (.single ht)))
  obtain ⟨hs, -, hcontinued⟩ := visited_wellFormed hr.visited
  exact ⟨s, t, hr.visited, hlength, hc, hs, (hcontinued t hc).1⟩

/-- A global constant that has a value keeps it, whatever becomes of the session. -/
theorem visited_const_fixed (hv : s.Visited) (hconst : name ∈ s.consts)
    (hread : s.heap.property? s.global name = some v) (hc : Continuation s t)
    : name ∈ t.consts ∧ t.global = s.global ∧ t.heap.property? t.global name = some v := by
  have hk := (wellFormed_continuation hv.wellFormed hc).2
  obtain ⟨hconst', hread'⟩ := hk.fixed ⟨hconst, hread⟩
  exact ⟨hconst', hk.global, hread'⟩

/-- A session with a constant, and the session after a script that assigns to it. -/
def reassigned? : Option (Session × Session) :=
  match Session.start {} with
  | .ok s =>
    match Run.script "const x = 1;" "a.js" none aloneEnv s with
    | .done _ s =>
      match Run.script "x = 2;" "b.js" none aloneEnv s with
      | .thrown _ s' => some (s, s')
      | _ => none
    | _ => none
  | .error _ => none

theorem reassigned_spec
    : ∃ p, reassigned? = some p ∧ "x" ∈ p.1.consts ∧
        p.1.heap.property? p.1.global "x" = some (.number (.ofNat 1)) := by
  decide +kernel

theorem reachable_of_reassigned? {p : Session × Session} (hp : reassigned? = some p)
    : p.1.Reachable ∧ p.1.Turn p.2 := by
  unfold reassigned? at hp
  split at hp
  . next s hstart =>
    split at hp
    . next hscript =>
      split at hp
      . next hscript' =>
        cases hp
        exact ⟨.returned (.start hstart) hscript, .failed hscript'⟩
      . cases hp
    . cases hp
  . cases hp

/-- A script that assigns to a constant leaves its value as it was. -/
theorem visited_const_fixed_reassigned
    : ∃ s t, s.Visited ∧ "x" ∈ s.consts
        ∧ s.heap.property? s.global "x" = some (.number (.ofNat 1)) ∧ Continuation s t
        ∧ t.heap.property? t.global "x" = some (.number (.ofNat 1)) := by
  obtain ⟨⟨s, t⟩, hp, hconst, hread⟩ := reassigned_spec
  obtain ⟨hr, ht⟩ := reachable_of_reassigned? hp
  have hc : Continuation s t := .single (.later hr (.idle (.single ht)))
  exact ⟨s, t, hr.visited, hconst, hread, hc, (visited_const_fixed hr.visited hconst hread hc).2.2⟩

end Session
end ScriptHost
