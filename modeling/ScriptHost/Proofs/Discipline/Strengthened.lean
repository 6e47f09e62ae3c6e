import ScriptHost.Proofs.Discipline.Tracked

/-!
This module contains disciplines with a stronger invariant. One more property of sessions may be added to
the invariant if all changes of sessions keep it and frames make no difference to it.
-/

namespace ScriptHost.Discipline

variable {D : Discipline} {I : Session → Prop} {s s' : Session} {config : Config}

/-- All changes of sessions keep the property, which no frame matters to. -/
class Supports (D : Discipline) (I : Session → Prop) : Prop where
  change {s s' : Session} (hs : D.Inv s) (hI : I s) (hm : D.Makes s s') : I s'
  moved {s : Session} {stack : CallStack} {depth : Nat} (hI : I s) : I (s.moved stack depth)

def strengthened (D : Discipline) (I : Session → Prop) : Discipline where
  Inv s := D.Inv s ∧ I s
  Goes := D.Goes
  Admits := D.Admits
  Binds := D.Binds
  Code := D.Code
  Throws := D.Throws

theorem allows_of_strengthened (s : Session) : (D.strengthened I).Allows D s :=
  ⟨id, id, id⟩

theorem Leads.of_strengthened (hl : (D.strengthened I).Leads s s') : D.Leads s s' :=
  ⟨hl.toResumes, hl.heap, hl.goes, hl.inv.1⟩

instance [D.Lawful] [D.Supports I] : (D.strengthened I).Lawful where
  goes_refl hs := Lawful.goes_refl (D := D) hs.1
  goes_trans hg hg' := Lawful.goes_trans (D := D) hg hg'
  admits_mono hl hv := hl.of_strengthened.admits hv
  binds_mono hl hid := hl.of_strengthened.binds hid
  code_mono hscripts hcode := Lawful.code_mono (D := D) hscripts hcode
  code_subset hsub hcode := Lawful.code_subset (D := D) hsub hcode
  throws_mono hl he := hl.of_strengthened.throws he
  admits_plain hv := Lawful.admits_plain (D := D) hv
  admits_variable hs hread := Lawful.admits_variable (D := D) hs.1 hread
  admits_member hs hid key := Lawful.admits_member (D := D) hs.1 hid key
  admits_element hs hid hcontent hv := Lawful.admits_element (D := D) hs.1 hid hcontent hv
  admits_task hs hv := Lawful.admits_task (D := D) hs.1 hv
  binds_current hs hid := Lawful.binds_current (D := D) hs.1 hid
  binds_found hs hfound := Lawful.binds_found (D := D) hs.1 hfound
  code_closure hs hcontent := Lawful.code_closure (D := D) hs.1 hcontent
  code_script hs hscript hparse := Lawful.code_script (D := D) hs.1 hscript hparse
  change hs hm := by
    have hm' := (allows_of_strengthened _).makes hm
    obtain ⟨hgoes, hinv⟩ := Lawful.change (D := D) hs.1 hm'
    exact ⟨hgoes, hinv, Supports.change hs.1 hs.2 hm'⟩
  made hs hop hexec := Lawful.made (D := D) hs.1 ((allows_of_strengthened _).does hop) hexec
  throws_failure hs hc hcause := Lawful.throws_failure (D := D) hs.1 hc hcause
  throws_value hs hc hv := Lawful.throws_value (D := D) hs.1 hc hv
  throws_malformed hs hscript hparse := Lawful.throws_malformed (D := D) hs.1 hscript hparse
  throws_enter hs hr hcaught henter hs' hl he :=
    Lawful.throws_enter (D := D) hs.1 hr hcaught henter hs' hl.of_strengthened he
  admits_caught he hcause := Lawful.admits_caught (D := D) he hcause

instance [D.LawfulUnder config] [D.Supports I] : (D.strengthened I).LawfulUnder config where
  enter hs hm := by
    have hinv := LawfulUnder.enter (D := D) hs.1 ((allows_of_strengthened _).enters hm)
    exact ⟨hinv, Supports.moved D hs.2⟩
  leave hs hm hl := by
    have hm' := (allows_of_strengthened _).enters hm
    obtain ⟨hgoes, hinv⟩ := LawfulUnder.leave (D := D) hs.1 hm' hl.of_strengthened
    exact ⟨hgoes, hinv, Supports.moved D hl.inv.2⟩
  throws_leave hs hm hl he :=
    LawfulUnder.throws_leave (D := D) hs.1 ((allows_of_strengthened _).enters hm) hl.of_strengthened he

end ScriptHost.Discipline
