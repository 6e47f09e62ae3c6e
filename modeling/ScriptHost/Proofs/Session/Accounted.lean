import ScriptHost.Proofs.Session.Blame

/-!
This module contains which exceptions a host gets to see: each is placed in the script that it names,
unless it comes from the entry to a handler and is displaced.
-/

namespace ScriptHost

namespace Session

variable {s s' : Session} {env : Env} {e : Exception} {es : List Exception}

theorem Displaced.not_placed (hd : s.Displaced e) : ¬ s.Placed e := by
  intro hp
  obtain ⟨id, script, other, handler, caught, env, s₀, s₁, hsite, hscript, hforeign, -⟩ := hd
  obtain ⟨script', hscript', hsub⟩ := hp _ hsite
  dsimp only at hscript'
  rw [hscript] at hscript'
  cases hscript'
  exact hforeign (hsub List.mem_cons_self)

theorem Displaced.cause (hd : s.Displaced e)
    : ∃ oom : OutOfMemory, e.fault.cause = .host .rangeError oom.message := by
  obtain ⟨id, script, other, handler, caught, env, s₀, s₁, -, -, -, -, -, -, henter⟩ := hd
  have hcaught : (Discipline.invariant (fun _ => True) fun _ _ => True).Throws s₀ caught := trivial
  rcases Eval.enter_kept trivial hcaught handler env with ⟨scope?, h, hdone, -⟩ | ⟨oom, h, hthrown, -⟩
  . rw [hdone] at henter
    cases henter
  . rw [hthrown] at henter
    cases henter
    exact ⟨oom, rfl⟩

/--
The place of an exception is right but for the one case, in which memory has run out. A report on a
right place shows the name, the line and the location of one script.
-/
structure Accounted (s : Session) (e : Exception) : Prop where
  placed_iff : s.Placed e ↔ ¬ s.Displaced e
  cause : s.Displaced e → ∃ oom : OutOfMemory, e.fault.cause = .host .rangeError oom.message
  report : s.Placed e → ∀ r, s.reportSite? e = some r → ∃ script ∈ s.scripts,
    r.origin = script.origin ∧ r.loc ∈ script.locations ∧ r.line = (script.line? r.loc.line).getD ""

theorem Blamed.accounted (hb : s.Blamed e) : s.Accounted e where
  placed_iff :=
    ⟨fun hp hd => hd.not_placed hp, fun hd => hb.placed_or_displaced.resolve_right hd⟩
  cause := Displaced.cause
  report := by
    intro hp r hr
    unfold reportSite? at hr
    obtain ⟨site, hsite, hr⟩ := Option.bind_eq_some_iff.1 hr
    obtain ⟨script, hscript, rfl⟩ := Option.map_eq_some_iff.1 hr
    obtain ⟨script', hscript', hsub⟩ := hp site hsite
    rw [hscript] at hscript'
    cases hscript'
    exact ⟨script, Array.mem_of_getElem? hscript, rfl, hsub List.mem_cons_self, rfl⟩

theorem Reachable.blame (hr : s.Reachable) : s.Idle .blame :=
  hr.idle fun _ _ => valid_start

/--
Every exception that a script ends with, and every one that is reported for a function that waited, is
placed in a script that it names, unless it comes from the entry to a handler and is displaced.
-/
theorem reachable_accounted (hr : s.Reachable)
    : (∀ env source origin callSite e s',
        Run.script source origin callSite env s = .thrown e s' → s'.Accounted e)
      ∧ (∀ env es s', Tasks env s es s' → ∀ e ∈ es, s'.Accounted e)
      ∧ ∀ env succeeded s', Run.drain env s = .done succeeded s' →
          s'.Reachable ∧ ∃ es, Tasks env s es s' ∧ succeeded = es.isEmpty := by
  refine ⟨?_, ?_, ?_⟩
  . intro env source origin callSite e s' hscript
    have hk := hr.blame.script env source origin callSite
    rw [hscript] at hk
    exact hk.2.accounted
  . intro env es s' hts e he
    exact ((hr.blame.tasks hts).2 e he).accounted
  . intro env succeeded s' hdrain
    obtain ⟨es, hts, -, hsucceeded⟩ := tasks_of_drainUpTo (hdrain : Run.drainUpTo _ _ env s = _)
    exact ⟨hr.tasks hts, es, hts, by simpa using hsucceeded⟩

/-- A session with little memory left, after a script that declares a function that always fails. -/
def crowded? : Option Session :=
  match Session.start { heapLimit := 2246 } with
  | .ok s =>
    match Run.script "// line 1\nfunction f() \x7b\n  null.x;\n\x7d\n" "b.js" none aloneEnv s with
    | .done _ s => some s
    | _ => none
  | .error _ => none

/-- What becomes of a call of that function by a script of one line that has a handler for it. -/
def crowdedFailure? : Option (Exception × Session) :=
  crowded?.bind fun s =>
    match Run.script "try \x7b f(); \x7d catch (e) \x7b \x7d" "a.js" none aloneEnv s with
    | .thrown e s => some (e, s)
    | _ => none

theorem reachable_crowded (hs : crowded? = some s) : s.Reachable := by
  unfold crowded? at hs
  split at hs
  . next s₀ hstart =>
    split at hs
    . next v s₁ hscript =>
      cases hs
      exact .returned (.start hstart) hscript
    . cases hs
  . cases hs

theorem crowdedFailure_not_placed : ∃ p, crowdedFailure? = some p ∧ ¬ p.2.Placed p.1 := by
  decide +kernel

/-- The one case does occur: there the handler is not entered, and its script has no third line. -/
theorem accounted_crowded
    : ∃ s s' e, s.Reachable
        ∧ Run.script "try \x7b f(); \x7d catch (e) \x7b \x7d" "a.js" none aloneEnv s = .thrown e s'
        ∧ ¬ s'.Placed e ∧ s'.Displaced e := by
  obtain ⟨⟨e, s'⟩, hfailure, hplaced⟩ := crowdedFailure_not_placed
  obtain ⟨s, hs, hthrown⟩ := Option.bind_eq_some_iff.1 hfailure
  split at hthrown
  . next e₁ s₁ hscript =>
    cases hthrown
    have hr := reachable_crowded hs
    have haccounted := (reachable_accounted hr).1 _ _ _ _ _ _ hscript
    refine ⟨s, s', e, hr, hscript, hplaced, ?_⟩
    apply Classical.byContradiction
    intro hdisplaced
    exact hplaced (haccounted.placed_iff.2 hdisplaced)
  . cases hthrown

end Session
end ScriptHost
