import ScriptHost.Proofs.Discipline.Basic

/-!
This module contains the single steps of sessions under a discipline. A discipline that is tracked also
has every session come about by such steps, and is as lawful as it was.
-/

namespace ScriptHost.Discipline

variable {D D' : Discipline} {s s' s'' : Session} {config : Config}

/-- All that one discipline allows in a session is allowed by the other one. -/
structure Allows (D D' : Discipline) (s : Session) : Prop where
  admits : ∀ {v}, D.Admits s.heap v → D'.Admits s.heap v
  binds : ∀ {id}, D.Binds s.heap id → D'.Binds s.heap id
  code : ∀ {id? ls}, D.Code s.scripts id? ls → D'.Code s.scripts id? ls

namespace Allows

variable (ha : D.Allows D' s)
include ha

theorem does {op : Heap.Op} (hop : D.Does s op) : D'.Does s op := by
  cases hop with
  | array hvalues => exact .array fun v hv => ha.admits (hvalues v hv)
  | object => exact .object
  | error => exact .error
  | closure hcode => exact .closure (ha.code hcode)
  | callScope hcallee => exact .callScope hcallee
  | handlerScope hvalue => exact .handlerScope (ha.admits hvalue)
  | property hobject hvalue => exact .property (ha.admits hobject) (ha.admits hvalue)
  | element hobject hvalue => exact .element (ha.admits hobject) (ha.admits hvalue)
  | «variable» hvalue hfree => exact .variable (ha.admits hvalue) hfree
  | binding hscope hvalue => exact .binding (ha.binds hscope) (ha.admits hvalue)

theorem change (hc : D.Change s s') : D'.Change s s' := by
  cases hc with
  | store hop => exact .store (ha.does hop)
  | const hscope hfree hvalue => exact .const hscope hfree (ha.admits hvalue)
  | queue hvalue hcallable => exact .queue (ha.admits hvalue) hcallable
  | dequeue hnext => exact .dequeue hnext
  | script script => exact .script script
  | host profiler console => exact .host profiler console

theorem makes (hm : D.Makes s s') : D'.Makes s s' :=
  ⟨ha.change hm.change, hm.heap.imp_right fun ⟨op, hop, hf, heq⟩ => ⟨op, ha.does hop, hf, heq⟩⟩

theorem enters {stack : CallStack} {depth : Nat} (hm : D.Enters config s stack depth)
    : D'.Enters config s stack depth := by
  cases hm with
  | expression hdepth => exact .expression hdepth
  | frame hpush hcode hscope hcall =>
    refine .frame hpush (ha.code hcode) (fun id hid => ha.binds (hscope id hid)) ?_
    exact fun loc id hid => ha.code (hcall loc id hid)
  | handler hscope => exact .handler (ha.binds hscope)

end Allows

/-- A change that scripts or their host make, or a move into other frames. -/
inductive Step (D : Discipline) (s : Session) : Session → Prop where
  | change {s' : Session} (hc : D.Change s s') : D.Step s s'
  | move {stack : CallStack} {depth : Nat} (hinv : D.Inv (s.moved stack depth))
    : D.Step s (s.moved stack depth)

/-- What becomes of a session in any number of steps. -/
abbrev Proceeds (D : Discipline) : Session → Session → Prop :=
  Relation.ReflTransGen D.Step

/-- An invariant that every change keeps holds after any number of steps. -/
theorem inv_of_proceeds (hchange : ∀ {s s' : Session}, D.Inv s → D.Change s s' → D.Inv s') (hs : D.Inv s)
    (hp : D.Proceeds s s') : D.Inv s' := by
  induction hp with
  | refl => exact hs
  | tail _ hstep ih =>
    cases hstep with
    | change hc => exact hchange ih hc
    | move hinv => exact hinv

/-- The discipline under which all sessions that are in the past have come to the present one in steps. -/
def tracked (D : Discipline) (past : Session → Prop) : Discipline where
  Inv s := D.Inv s ∧ ∀ s₀, past s₀ → D.Proceeds s₀ s
  Goes s s' := D.Goes s s' ∧ D.Proceeds s s'
  Admits := D.Admits
  Binds := D.Binds
  Code := D.Code
  Throws := D.Throws

variable {past : Session → Prop}

theorem allows_of_tracked (s : Session) : (D.tracked past).Allows D s :=
  ⟨id, id, id⟩

theorem inv_tracked_self (hs : D.Inv s) : (D.tracked (· = s)).Inv s := by
  refine ⟨hs, ?_⟩
  rintro s₀ rfl
  exact .refl

theorem Leads.of_tracked (hl : (D.tracked past).Leads s s') : D.Leads s s' :=
  ⟨hl.toResumes, hl.heap, hl.goes.1, hl.inv.1⟩

instance [D.Lawful] : (D.tracked past).Lawful where
  goes_refl hs := ⟨Lawful.goes_refl hs.1, .refl⟩
  goes_trans hg hg' := ⟨Lawful.goes_trans hg.1 hg'.1, hg.2.trans hg'.2⟩
  admits_mono hl hv := hl.of_tracked.admits hv
  binds_mono hl hid := hl.of_tracked.binds hid
  code_mono hscripts hcode := Lawful.code_mono (D := D) hscripts hcode
  code_subset hsub hcode := Lawful.code_subset (D := D) hsub hcode
  throws_mono hl he := hl.of_tracked.throws he
  admits_plain hv := Lawful.admits_plain (D := D) hv
  admits_variable hs hread := Lawful.admits_variable (D := D) hs.1 hread
  admits_member hs hid key := Lawful.admits_member (D := D) hs.1 hid key
  admits_element hs hid hcontent hv := Lawful.admits_element (D := D) hs.1 hid hcontent hv
  admits_task hs hv := Lawful.admits_task (D := D) hs.1 hv
  binds_current hs hid := Lawful.binds_current (D := D) hs.1 hid
  binds_found hs hfound := Lawful.binds_found (D := D) hs.1 hfound
  code_closure hs hcontent := Lawful.code_closure (D := D) hs.1 hcontent
  code_script hs hscript hparse := Lawful.code_script (D := D) hs.1 hscript hparse
  change {s s'} hs hm := by
    have hchange := (allows_of_tracked s).change hm.change
    obtain ⟨hgoes, hinv⟩ := Lawful.change (D := D) hs.1 ((allows_of_tracked s).makes hm)
    refine ⟨⟨hgoes, .single (.change hchange)⟩, hinv, ?_⟩
    exact fun s₀ hs₀ => (hs.2 s₀ hs₀).tail (.change hchange)
  made hs hop hexec := Lawful.made (D := D) hs.1 ((allows_of_tracked _).does hop) hexec
  throws_failure hs hc hcause := Lawful.throws_failure (D := D) hs.1 hc hcause
  throws_value hs hc hv := Lawful.throws_value (D := D) hs.1 hc hv
  throws_malformed hs hscript hparse := Lawful.throws_malformed (D := D) hs.1 hscript hparse
  throws_enter hs hr hcaught henter hs' hl he :=
    Lawful.throws_enter (D := D) hs.1 hr hcaught henter hs' hl.of_tracked he
  admits_caught he hcause := Lawful.admits_caught (D := D) he hcause

instance [D.LawfulUnder config] : (D.tracked past).LawfulUnder config where
  enter hs hm := by
    have hinv := LawfulUnder.enter (D := D) hs.1 ((allows_of_tracked _).enters hm)
    exact ⟨hinv, fun s₀ hs₀ => (hs.2 s₀ hs₀).tail (.move hinv)⟩
  leave {s s' stack depth} hs hm hl := by
    have hm' := (allows_of_tracked _).enters hm
    have hinv := LawfulUnder.enter (D := D) hs.1 hm'
    obtain ⟨hgoes, hinv'⟩ := LawfulUnder.leave (D := D) hs.1 hm' hl.of_tracked
    -- the way into the frames, all that was done there, and the way out of them
    have hproceeds : D.Proceeds s (s'.moved s.stack s.expressionDepth) :=
      .head (.move hinv) (hl.goes.2.tail (.move hinv'))
    exact ⟨⟨hgoes, hproceeds⟩, hinv', fun s₀ hs₀ => (hs.2 s₀ hs₀).trans hproceeds⟩
  throws_leave hs hm hl he :=
    LawfulUnder.throws_leave (D := D) hs.1 ((allows_of_tracked _).enters hm) hl.of_tracked he

end ScriptHost.Discipline
