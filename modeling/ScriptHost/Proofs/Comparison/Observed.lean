import ScriptHost.Proofs.Comparison.Call
import ScriptHost.Proofs.Session.WellFormed

/-!
This module contains comparisons under the same limits, of an evaluation under an observer with the one that
nobody observes. If the observer stops for a pardoned reason only, they match. So what a comparison asks of
sessions holds at all moments of an evaluation.
-/

namespace ScriptHost

variable {α : Type} {C : Comparison} {Excused : Exception → Prop} {s s' t : Session} {n : Nat}
  {observer observer' : Session → Option Stop}

namespace Comparison

/-- The limits of both evaluations are the same. -/
structure Level (C : Comparison) : Prop where
  config : C.config = C.env.config
  memory : C.memory = 0
  calls : C.calls = 0

namespace Level

variable (hlevel : C.Level)
include hlevel

theorem env'_eq : C.env' = C.env := by
  unfold env'
  rw [hlevel.config]

theorem image_eq (s : Session) : C.image s = s := by
  unfold image
  rw [hlevel.memory, hlevel.calls]
  rfl

theorem room (s : Session) : C.Room s :=
  .inl hlevel.calls

end Level
end Comparison

/-- If nothing is pardoned and nothing is excused, the outcomes are the same. -/
theorem Outcome.Matches.eq {P : α → Session → Prop} {o o' : Outcome α} (hlevel : C.Level)
    (hstrict : ∀ why, o = .stopped why → ¬ C.Pardons why) (ho : o.Matches C Run.Never s P o')
    : o = o' := by
  cases o with
  | done a s' =>
    rw [ho.2.2, hlevel.image_eq]
  | thrown e s' =>
    rw [ho.2.resolve_left id, hlevel.image_eq]
  | stopped why =>
    rw [(Or.resolve_left ho (hstrict why rfl)).2]

theorem Outcome.Matches.leads {P : α → Session → Prop} {o o' : Outcome α}
    (ho : o.Matches C Excused s P o') (hout : o.session? = some s')
    : C.Leads s s' := by
  cases o with
  | done a s'' | thrown e s'' =>
    cases hout
    exact ho.1
  | stopped why => cases hout

namespace Run

variable {P : α → Session → Prop} {x x' : Run α}

/-- The session is clear at the first and at the last moment if the first observer lets them pass. -/
theorem Matches.observed (hlevel : C.Level) (hfewer : ∀ s, observer s = none → observer' s = none)
    (hpardon : ∀ s why, C.Inv s → observer s = some why → C.Pardons why)
    (hclear : ∀ s, observer s = none → C.IsClear s)
    (hx : C.IsClear s → Matches C Excused s P x x')
    : Matches C Excused s (fun a s' => P a s' ∧ C.IsClear s') (Run.observed observer x)
        (Run.observed observer' x') := by
  intro hs
  rcases observed_cases observer x C.env s with
    ⟨why, hfirst, hout⟩ | ⟨hfirst, ⟨t, why, hmoment, hlast, hout⟩ | ⟨hlast, hout⟩⟩
  . rw [hout]
    exact .inl (hpardon s why hs hfirst)
  . have hm := hx (hclear s hfirst) hs
    rw [hout]
    exact .inl (hpardon t why (hm.leads hmoment).inv hlast)
  . have hm := hx (hclear s hfirst) hs
    have hfirst' : observer' (C.image s) = none := by
      rw [hlevel.image_eq]
      exact hfewer s hfirst
    rw [hout]
    cases hresult : x C.env s with
    | done a s' =>
      rw [hresult] at hm hlast
      obtain ⟨hl, ha, hout'⟩ := hm
      refine ⟨hl, ⟨ha, hclear s' (hlast s' rfl)⟩, ?_⟩
      rw [observed_eq hfirst', hout']
      rw [hout']
      rintro _ ⟨⟩
      rw [hlevel.image_eq]
      exact hfewer s' (hlast s' rfl)
    | thrown e s' =>
      rw [hresult] at hm hlast
      refine ⟨hm.1, hm.2.imp_right fun hout' => ?_⟩
      rw [observed_eq hfirst', hout']
      rw [hout']
      rintro _ ⟨⟩
      rw [hlevel.image_eq]
      exact hfewer s' (hlast s' rfl)
    | stopped why =>
      rw [hresult] at hm
      refine hm.imp_right fun ⟨hwhy, hout'⟩ => ⟨hwhy, ?_⟩
      rw [observed_eq hfirst', hout']
      rw [hout']
      exact nofun

end Run

/-- No rule can be applied without fuel. -/
theorem evaluator_zero_matches [C.Lawful] : (evaluator 0).Matches C 0 (evaluator 0) := by
  refine ⟨?_, ?_, ?_, ?_⟩
  . exact fun hr => Run.matches_stop (Comparison.Lawful.mayRunOut_of_zero hr.2)
  . exact fun hr => Run.matches_stop (Comparison.Lawful.mayRunOut_of_zero hr.2)
  . exact fun hr _ _ _ => Run.matches_stop (Comparison.Lawful.mayRunOut_of_zero hr.2)
  . exact fun hr _ _ => Run.matches_stop (Comparison.Lawful.mayRunOut_of_zero hr.2)

theorem observedEvaluator_matches [C.Lawful] (hlevel : C.Level)
    (hfewer : ∀ s, observer s = none → observer' s = none)
    (hpardon : ∀ s why, C.Inv s → observer s = some why → C.Pardons why)
    (hclear : ∀ s, observer s = none → C.IsClear s) (n : Nat)
    : (observedEvaluator observer n).Matches C n (observedEvaluator observer' n) := by
  induction n with
  | zero => exact evaluator_zero_matches
  | succ n ih =>
    refine ⟨?_, ?_, ?_, ?_⟩
    . intro Excused s e hr
      have hx : Run.Matches C Excused s Run.Free
          (Eval.nested e.loc (Run.observed observer (Eval.exprRule (observedEvaluator observer n) e)))
          (Eval.nested e.loc (Run.observed observer' (Eval.exprRule (observedEvaluator observer' n) e))) := by
        apply Eval.matches_nested
        have hrule := Run.Matches.observed hlevel hfewer hpardon hclear fun hc =>
          Eval.matches_exprRule ih hc hr.nested
        exact (hrule.mono fun _ _ _ => trivial).strict hlevel.memory
      exact (Run.Matches.observed hlevel hfewer hpardon hclear fun _ => hx).mono fun _ _ h => h.2
    . intro Excused s jumps st hr
      have hx : Run.Matches C Excused s (fun completion _ => completion.Allowed jumps)
          (Eval.stmt (observedEvaluator observer n) st) (Eval.stmt (observedEvaluator observer' n) st) :=
        Eval.matches_stmt ih hlevel.memory hr
      exact (Run.Matches.observed hlevel hfewer hpardon hclear fun _ => hx).mono fun _ _ h => h.1
    . intro Excused s callee hr _ args callSite
      have hx (hc : C.IsClear s) : Run.Matches C Excused s Run.Free
          (Eval.callWith (fun body => Run.observed observer
            (Eval.functionBody (observedEvaluator observer n) body)) (observedEvaluator observer n)
              callee args callSite)
          (Eval.callWith (fun body => Run.observed observer'
            (Eval.functionBody (observedEvaluator observer' n) body)) (observedEvaluator observer' n)
              callee args callSite) := by
        refine Run.Matches.strict ?_ hlevel.memory
        refine Eval.matches_callWith ih ?_ hc hr (fun _ _ _ _ => hlevel.room s) args callSite
        intro s' body hr'
        have hbody := Run.Matches.observed hlevel hfewer hpardon hclear fun _ =>
          Eval.matches_functionBody ih hr'
        exact hbody.mono fun _ _ _ => trivial
      exact (Run.Matches.observed hlevel hfewer hpardon hclear hx).mono fun _ _ _ => trivial
    . intro Excused s source hr origin callSite
      have hx : Run.Matches C Excused s Run.Free
          (Eval.scriptWith (fun stmts => Run.observed observer
            (Eval.program (observedEvaluator observer n) stmts)) source origin callSite)
          (Eval.scriptWith (fun stmts => Run.observed observer'
            (Eval.program (observedEvaluator observer' n) stmts)) source origin callSite) := by
        refine Run.Matches.strict ?_ hlevel.memory
        refine Eval.matches_scriptWith ?_ hr (fun _ _ => hlevel.room s) origin callSite
        intro s' stmts hr'
        have hbody := Run.Matches.observed hlevel hfewer hpardon hclear fun _ => Eval.matches_program ih hr'
        exact hbody.mono fun _ _ _ => trivial
      exact (Run.Matches.observed hlevel hfewer hpardon hclear fun _ => hx).mono fun _ _ h => h.2

namespace Entry

/-- A script or a call may be run in a session by an evaluation that goes so deep. -/
def Starts (C : Comparison) (n : Nat) (s : Session) : Entry α → Prop
  | script source _ _ => C.Runs n s (.load source)
  | call callee _ _ => C.Runs n s .call ∧ (C.anyCallee ∨ s.heap.isCallable callee)
  | _ => False

variable {entry : Entry α}

theorem matches_run {ev ev' : Evaluator} (hev : ev.Matches C n ev') (hstarts : entry.Starts C n s)
    : Run.Matches C Excused s Run.Free (entry.run ev) (entry.run ev') := by
  cases entry with
  | script source origin callSite =>
    exact (hev.script hstarts origin callSite).mono fun _ _ _ => trivial
  | call callee args callSite => exact hev.call hstarts.1 hstarts.2 args callSite
  | expr | stmt | block | native => exact hstarts.elim

variable [C.Lawful] (hlevel : C.Level) (hs : C.Inv s) (hstarts : entry.Starts C n s)
include hlevel hs hstarts

theorem matches_observers (hfewer : ∀ t, observer t = none → observer' t = none)
    (hpardon : ∀ t why, C.Inv t → observer t = some why → C.Pardons why)
    (hclear : ∀ t, observer t = none → C.IsClear t)
    : (entry.run (observedEvaluator observer n) C.env s).Matches C Run.Never s Run.Free
        (entry.run (observedEvaluator observer' n) C.env s) := by
  have hev := observedEvaluator_matches hlevel hfewer hpardon hclear n
  have hm : Outcome.Matches C Run.Never s Run.Free _ _ := matches_run hev hstarts hs
  rwa [hlevel.env'_eq, hlevel.image_eq] at hm

theorem matches_observed (hpardon : ∀ t why, C.Inv t → observer t = some why → C.Pardons why)
    (hclear : ∀ t, observer t = none → C.IsClear t)
    : (entry.run (observedEvaluator observer n) C.env s).Matches C Run.Never s Run.Free
        (entry.run (evaluator n) C.env s) := by
  rw [← observedEvaluator_nobody]
  exact matches_observers hlevel hs hstarts (fun _ _ => rfl) hpardon hclear

/-- Where an observer has let an evaluation pass, it has been at all its moments. -/
theorem throughout_of_observed (hclear : ∀ c, C.Clear c) (hlenient : ∀ why, C.Pardons why)
    (hout : (entry.run (observedEvaluator observer n) C.env s).session? = some s')
    : entry.Throughout n C.env s fun t => observer t = none := by
  have hsame : ∀ observer' : Session → Option Stop, (∀ t, observer t = none → observer' t = none) →
      entry.run (observedEvaluator observer n) C.env s = entry.run (observedEvaluator observer' n) C.env s := by
    intro observer' hfewer
    have hm := matches_observers hlevel hs hstarts hfewer (fun _ why _ _ => hlenient why) fun _ _ => hclear _
    apply hm.eq hlevel
    intro why hstopped
    rw [hstopped] at hout
    cases hout
  intro observer' hfewer
  rw [← hsame observer' hfewer, hsame (fun _ => none) fun _ _ => rfl, observedEvaluator_nobody]

/-- If the sessions are clear at all moments, the first evaluation is as well the one that nobody observes. -/
theorem Throughout.matches {P : Session → Prop} {why : Stop} (hp : entry.Throughout n C.env s P)
    (hwhy : C.Pardons why) (hclear : ∀ t, P t → C.IsClear t)
    : (entry.run (evaluator n) C.env s).Matches C Run.Never s Run.Free
        (entry.run (evaluator n) C.env s) := by
  classical
  let observer : Session → Option Stop := fun t => if P t then none else some why
  have hpardon : ∀ t why', C.Inv t → observer t = some why' → C.Pardons why' := by
    intro t why' _ hstops
    by_cases ht : P t
    . rw [show observer t = none from if_pos ht] at hstops
      cases hstops
    . rw [show observer t = some why from if_neg ht] at hstops
      cases hstops
      exact hwhy
  have hclear' : ∀ t, observer t = none → C.IsClear t := by
    intro t hsilent
    apply hclear
    apply Classical.byContradiction
    intro ht
    rw [show observer t = some why from if_neg ht] at hsilent
    cases hsilent
  have hm := matches_observed hlevel hs hstarts hpardon hclear'
  rwa [hp observer fun t ht => if_pos ht] at hm

variable (hclear : ∀ c, C.Clear c) (hstrict : ∀ why, ¬ C.Pardons why)
include hclear hstrict

theorem throughout_inv : entry.Throughout n C.env s C.Inv := by
  intro observer ho
  have hpardon : ∀ t why, C.Inv t → observer t = some why → C.Pardons why := by
    intro t why ht hstops
    rw [ho t ht] at hstops
    cases hstops
  have hm := matches_observed hlevel hs hstarts hpardon fun _ _ => hclear _
  exact hm.eq hlevel fun why _ => hstrict why

theorem leads_of_session?_matching (hout : (entry.run (evaluator n) C.env s).session? = some s')
    : C.Leads s s' := by
  let nobody : Session → Option Stop := fun _ => none
  have hnever : ∀ t why, C.Inv t → nobody t = some why → C.Pardons why := nofun
  have hm := matches_observed hlevel hs hstarts hnever fun _ _ => hclear _
  rw [← hm.eq hlevel fun why _ => hstrict why] at hout
  exact hm.leads hout

end Entry

/-- What a host begins with is a script, or a function that can be called. -/
theorem Session.Begins.starts {entry : Entry Value} (hw : s.WellFormed) (hb : s.Begins s' entry)
    (hcall : C.Admits n s' .call)
    (hload : ∀ source origin callSite, entry = .script source origin callSite →
      C.Admits n s' (.load source))
    : entry.Starts C n s' := by
  cases hb with
  | script source origin callSite => exact ⟨trivial, hload source origin callSite rfl⟩
  | @task task tasks f hnext htask =>
    have hcallable := (hw.microtasks task (by simp [hnext])).2
    obtain ⟨id, hid⟩ := Option.isSome_iff_exists.1 hcallable
    obtain ⟨hobject, hid⟩ := Option.filter_eq_some_iff.1 hid
    rw [htask] at hobject
    cases hobject
    exact ⟨⟨trivial, hcall⟩, .inr hid⟩

end ScriptHost
