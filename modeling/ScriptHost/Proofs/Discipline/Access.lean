import ScriptHost.Proofs.Discipline.Rules
import ScriptHost.Proofs.Heap.Bindings
import ScriptHost.Session.Operator

/-!
This module contains that the accesses of scripts to variables and properties, and their operators, keep
any lawful discipline.
-/

namespace ScriptHost

/-- What a computation gives to scripts. -/
abbrev Discipline.Gives (D : Discipline) (v : Value) (h : Heap) : Prop :=
  D.Admits h v

namespace Run

variable {D : Discipline} [D.Lawful] {env : Env} {s : Session} {loc : Location} {v : Value}

theorem obeys_plain (hv : v.object? = none) : Obeys D env s D.Gives (pure v) :=
  obeys_pure (Discipline.Lawful.admits_plain hv)

theorem obeys_readVariable (hc : D.Covers s loc) (name : String)
    : Obeys D env s D.Gives (readVariable name loc) := by
  apply agree_get
  cases hread : s.readVariable? name with
  | some v =>
    intro hs
    exact obeys_pure (Discipline.Lawful.admits_variable hs hread) hs
  | none => exact obeys_raise hc rfl

theorem obeys_writeVariable (hc : D.Covers s loc) (name : String) (hv : D.Admits s.heap v)
    : Obeys D env s Any (writeVariable name v loc) := by
  apply agree_get
  cases hfound : s.findBinding? name with
  | some place =>
    obtain ⟨id, i⟩ := place
    dsimp only
    split
    . next hmutable =>
      intro hs
      refine obeys_modify ?_ hs
      have hindex : s.heap.bindingIndex? id name = some i := by
        obtain ⟨scope, -, hscope⟩ := Option.bind_eq_some_iff.1 hfound
        exact Heap.bindingIndex?_of_findBinding? hscope
      have hmutable' : (s.heap.binding? id i).map Binding.mutable = some true := by
        cases hb : (s.heap.binding? id i).map Binding.mutable <;> simp_all
      rw [Heap.assignBinding_eq hindex hmutable']
      exact Discipline.Does.makes (.binding (Discipline.Lawful.binds_found hs hfound) hv) nofun
    . exact obeys_raise hc rfl
  | none =>
    apply obeys_unless hc rfl
    intro hconst
    exact obeys_store hc (.variable hv (Or.inl (by simpa using hconst))) (s.fits_global _ _) rfl

/-- A declaration at top level: a constant becomes one, be there memory for its value or not. -/
theorem declare_global (hscope : s.scope? = none) {name : String} (hfree : name ∉ s.consts)
    (kind : DeclareKind) (v : Value) (loc : Location) (env : Env)
    : ∃ s' : Session, s' = { s with
          heap := (Heap.Op.setProperty s.global name v).apply s.heap
          consts := if kind = .const then s.consts ++ [name] else s.consts } ∧
        declare kind name v loc env s
          =
        match (Heap.exec (Heap.setProperty s.global name v) s.heap).1 with
        | .ok _ => .done () s'
        | .error e => .thrown (s'.exception (.host .rangeError e.message) loc) s' := by
  refine ⟨_, rfl, ?_⟩
  have hcontains : ¬ s.consts.contains name = true := by simpa using hfree
  have hop := onHeap_eq (Heap.setProperty s.global name v) env s
  unfold declare
  rw [bind_done (rfl : get env s = .done s s), hscope]
  dsimp only
  rw [if_neg hcontains, bind_done hop]
  by_cases hkind : kind = .const
  . rw [if_pos hkind, if_pos hkind]
    cases (Heap.exec (Heap.setProperty s.global name v) s.heap).1 <;> rfl
  . rw [if_neg hkind, if_neg hkind]
    cases (Heap.exec (Heap.setProperty s.global name v) s.heap).1 <;> rfl

theorem obeys_declare (hc : D.Covers s loc) (kind : DeclareKind) (name : String)
    (hv : D.Admits s.heap v)
    : Obeys D env s Any (declare kind name v loc) := by
  cases hscope : s.scope? with
  | some scope =>
    apply agree_get
    rw [hscope]
    intro hs
    exact obeys_store hc (.binding (Discipline.Lawful.binds_current hs hscope) hv) nofun rfl hs
  | none =>
    by_cases hfree : name ∈ s.consts
    . have hcontains : s.consts.contains name = true := by simpa using hfree
      apply agree_get
      rw [hscope]
      apply obeys_unless hc rfl
      exact fun hnot => absurd hcontains hnot
    . intro hs
      refine ⟨rfl, ?_⟩
      obtain ⟨s', hs', hout⟩ := declare_global hscope hfree kind v loc env
      have hmakes : D.Makes s s' := by
        refine ⟨?_, .inr ⟨_, .variable hv (Or.inl hfree), s.fits_global name v, by rw [hs']⟩⟩
        rw [hs']
        split
        . exact .const hscope hfree hv
        . exact .store (.variable hv (Or.inl hfree))
      have hl := Discipline.leads_change hs hmakes
      rw [hout]
      cases (Heap.exec (Heap.setProperty s.global name v) s.heap).1 with
      | ok _ => exact ⟨hl, trivial⟩
      | error e => exact ⟨hl, Discipline.Lawful.throws_failure hl.inv (hl.covers hc) rfl⟩

theorem obeys_declareVar (hc : D.Covers s loc) (name : String)
    : Obeys D env s Any (declareVar name loc) := by
  have hundefined : D.Admits s.heap .undefined := Discipline.Lawful.admits_plain rfl
  apply agree_get
  cases hscope : s.scope? with
  | some scope =>
    dsimp only
    split
    . intro hs
      have hbinds := Discipline.Lawful.binds_current hs hscope
      exact obeys_store hc (.binding hbinds hundefined) nofun rfl hs
    . exact obeys_pure trivial
  | none =>
    dsimp only
    split
    . exact obeys_pure trivial
    . next hnew =>
      exact obeys_store hc (.variable hundefined (Or.inr (by simpa using hnew))) (s.fits_global _ _) rfl

theorem obeys_getMember (hc : D.Covers s loc) {base : Value} (hbase : D.Admits s.heap base)
    (key : String)
    : Obeys D env s D.Gives (getMember base key loc) := by
  cases base with
  | undefined | null => exact obeys_raise hc rfl
  | object id =>
    apply agree_get
    intro hs
    exact obeys_pure (Discipline.Lawful.admits_member hs hbase key) hs
  | string text =>
    apply obeys_plain
    unfold stringMember
    split
    . rfl
    . split <;> rfl
  | bool _ | number _ => exact obeys_plain rfl

theorem obeys_getMember_display (hc : D.Covers s loc) {base : Value} (hbase : D.Admits s.heap base)
    (key : Value)
    : Obeys D env s D.Gives (do getMember base (← display key) loc) := by
  apply (obeys_display key).bind
  intro text s' hl _
  exact obeys_getMember (hl.covers hc) (hl.admits hbase) text

theorem obeys_getIndex (hc : D.Covers s loc) {base : Value} (hbase : D.Admits s.heap base)
    (key : Value)
    : Obeys D env s D.Gives (getIndex base key loc) := by
  have hmember : Obeys D env s D.Gives _ := obeys_getMember_display hc hbase key
  unfold getIndex
  cases hobject : base.object? with
  | none => exact hmember
  | some id =>
    cases elementIndex? key with
    | none => exact hmember
    | some i =>
      apply agree_get
      cases hcontent : s.heap.content id with
      | array elements =>
        cases base with
        | object id' =>
          cases hobject
          intro hs
          refine obeys_pure ?_ hs
          cases helement : elements[i]? with
          | none => exact Discipline.Lawful.admits_plain rfl
          | some v =>
            exact Discipline.Lawful.admits_element hs hbase hcontent (Array.mem_of_getElem? helement)
        | _ => cases hobject
      | _ => exact hmember

theorem obeys_setMember (hc : D.Covers s loc) {base : Value} (hbase : D.Admits s.heap base)
    (key : String) (hv : D.Admits s.heap v)
    : Obeys D env s Any (setMember base key v loc) := by
  cases base with
  | undefined | null => exact obeys_raise hc rfl
  | object id =>
    apply agree_get
    have hproperty : (s.heap.isArray id → arrayIndex? key = none) →
        Obeys D env s Any (heap loc (Heap.setProperty id key v)) :=
      fun hfits => obeys_store hc (.property hbase hv) (Session.fits_property hfits v) rfl
    cases harray : s.heap.isArray id with
    | false => exact hproperty (fun h => absurd (harray.symm.trans h) Bool.false_ne_true)
    | true =>
      cases hindex : arrayIndex? key with
      | none => exact hproperty fun _ => hindex
      | some i => exact obeys_store hc (.element hbase hv) nofun rfl
  | bool _ | number _ | string _ => exact obeys_pure trivial

theorem obeys_setIndex (hc : D.Covers s loc) {base : Value} (hbase : D.Admits s.heap base)
    (key : Value) (hv : D.Admits s.heap v)
    : Obeys D env s Any (setIndex base key v loc) := by
  have hmember : Obeys D env s Any (do setMember base (← display key) v loc) := by
    apply (obeys_display key).bind
    intro text s' hl _
    exact obeys_setMember (hl.covers hc) (hl.admits hbase) text (hl.admits hv)
  unfold setIndex
  cases hobject : base.object? with
  | none => exact hmember
  | some id =>
    cases elementIndex? key with
    | none => exact hmember
    | some i =>
      cases base with
      | object id' =>
        cases hobject
        apply agree_get
        split
        . exact obeys_store hc (.element hbase hv) nofun rfl
        . exact hmember
      | _ => cases hobject

theorem obeys_toPrimitive (v : Value) : Obeys D env s (fun v _ => v.object? = none) (toPrimitive v) := by
  cases v with
  | object id =>
    apply (obeys_display _).bind
    intro text s' _ _
    exact obeys_pure rfl
  | _ => exact obeys_pure rfl

theorem obeys_toNumber (v : Value) : Obeys D env s Any (toNumber v) := by
  apply (obeys_toPrimitive v).bind
  intro v s' _ _
  exact obeys_pure trivial

theorem obeys_looseEq (a b : Value) : Obeys D env s Any (looseEq a b) := by
  have hprimitive : ∀ v w : Value, Obeys D env s Any (do return (← toPrimitive v).looseEq w) := by
    intro v w
    apply (obeys_toPrimitive v).bind
    intro v s' _ _
    exact obeys_pure trivial
  unfold looseEq
  -- only of two values of which one is an object, that one may be turned into its text
  cases a.object? with
  | none =>
    cases b.object? with
    | none => exact obeys_pure trivial
    | some id =>
      dsimp only
      split
      . exact obeys_pure trivial
      . exact hprimitive b a
  | some id =>
    cases b.object? with
    | none =>
      dsimp only
      split
      . exact obeys_pure trivial
      . exact hprimitive a b
    | some id' => exact obeys_pure trivial

theorem obeys_arithmetic (f : Double → Double → Double) (a b : Value)
    : Obeys D env s D.Gives (arithmetic f a b) := by
  apply (obeys_toNumber a).bind
  intro x s₁ _ _
  apply (obeys_toNumber b).bind
  intro y s₂ _ _
  exact obeys_plain rfl

theorem obeys_comparison (test : Option Ordering → Bool) (a b : Value)
    : Obeys D env s D.Gives (comparison test a b) := by
  apply (obeys_toPrimitive a).bind
  intro a s₁ _ _
  apply (obeys_toPrimitive b).bind
  intro b s₂ _ _
  exact obeys_plain rfl

theorem obeys_binary (op : BinaryOp) {a b : Value} (ha : D.Admits s.heap a) (hb : D.Admits s.heap b)
    : Obeys D env s D.Gives (binary op a b) := by
  cases op with
  | add =>
    apply (obeys_toPrimitive a).bind
    intro a s₁ _ _
    apply (obeys_toPrimitive b).bind
    intro b s₂ _ _
    apply obeys_plain
    unfold Value.add
    split <;> rfl
  | sub | mul | div | mod => exact obeys_arithmetic _ a b
  | eq | ne =>
    apply (obeys_looseEq a b).bind
    intro equal s' _ _
    exact obeys_plain rfl
  | strictEq | strictNe => exact obeys_plain rfl
  | and | or =>
    apply obeys_pure
    change D.Admits s.heap (if a.truthy then _ else _)
    split
    . assumption
    . assumption
  | lt | gt | le | ge =>
    unfold binary
    exact obeys_comparison _ a b

end Run
end ScriptHost
