import Mathlib.Data.Set.Defs
import ScriptHost.Proofs.Session.Variables

/-!
This module contains what becomes of names that code declares and assigns to. It is the same in a function
and at top level until a constant is declared again: a function binds its name anew, and at top level
that fails.
-/

namespace ScriptHost.Session

variable {s s' t : Session} {name : String} {v : Value}

theorem heap_done {op : HeapM Unit} {h : Heap} (hexec : Heap.exec op s.heap = (.ok (), h)) (loc : Location)
    (env : Env)
    : Run.heap loc op env s = .done () (s.withHeap h) := by
  unfold Run.heap
  rw [Run.bind_done (Run.onHeap_eq op env s), hexec]
  rfl

/-- A declaration or an assignment, at a place of the running script. -/
structure Rebinding where
  /-- What is declared, unless it is only assigned to. -/
  kind? : Option DeclareKind
  name : String
  value : Value
  loc : Location

namespace Rebinding

def run (r : Rebinding) : Run Unit :=
  match r.kind? with
  | some kind => Run.declare kind r.name r.value r.loc
  | none => Run.writeVariable r.name r.value r.loc

/-- What the name is bound to if it can be. -/
def binding (r : Rebinding) : Binding :=
  ⟨r.name, r.value, decide (r.kind? ≠ some .const)⟩

/-- Why a constant keeps its value: it cannot be assigned to, and at top level it cannot be declared. -/
def refusal? (top : Bool) (r : Rebinding) : Option Cause :=
  match r.kind? with
  | some _ => if top then some (.redeclaration r.name) else none
  | none => some .constAssignment

/-- A name that has been declared as a constant is declared again. -/
def Redeclares (later earlier : Rebinding) : Prop :=
  later.name = earlier.name ∧ later.kind? ≠ none ∧ earlier.kind? = some .const

variable {r : Rebinding} {env : Env}

/-- A constant that is found at top level is one of the global constants. -/
theorem mem_consts_of_constant {name : String} (hconst : s.Constant name)
    (hfound : s.findBinding? name = none)
    : s.consts.contains name = true := by
  obtain ⟨b, hb, hmutable⟩ := hconst
  rw [binding?_of_not_found hfound] at hb
  obtain ⟨v, -, rfl⟩ := Option.map_eq_some_iff.1 hb
  simpa using hmutable

theorem declare_refused {name : String} (hconst : s.Constant name) (htop : s.scope? = none)
    (kind : DeclareKind) (v : Value) (loc : Location)
    : Run.declare kind name v loc env s = .thrown (s.exception (.redeclaration name) loc) s := by
  unfold Run.declare
  rw [Run.get_bind, htop]
  dsimp only
  rw [if_pos (mem_consts_of_constant hconst (findBinding?_of_top htop name))]
  rfl

theorem write_refused {name : String} (hconst : s.Constant name) (v : Value) (loc : Location)
    : Run.writeVariable name v loc env s = .thrown (s.exception .constAssignment loc) s := by
  unfold Run.writeVariable
  rw [Run.get_bind]
  cases hfound : s.findBinding? name with
  | some place =>
    obtain ⟨b, hb, hmutable⟩ := hconst
    obtain ⟨b', hplace, hb'⟩ := binding?_of_findBinding? hfound
    rw [hb] at hb'
    cases hb'
    have hfixed : ¬ ((s.heap.binding? place.1 place.2).map Binding.mutable).getD false = true := by
      rw [hplace]
      simpa using hmutable
    dsimp only
    rw [if_neg hfixed]
    rfl
  | none =>
    dsimp only
    rw [if_pos (mem_consts_of_constant hconst hfound)]
    rfl

theorem run_of_refusal? (hconst : s.Constant r.name) {cause : Cause}
    (hrefusal : r.refusal? s.scope?.isNone = some cause)
    : r.run env s = .thrown (s.exception cause r.loc) s := by
  unfold refusal? at hrefusal
  unfold run
  cases hkind : r.kind? with
  | some kind =>
    rw [hkind] at hrefusal
    cases hscope : s.scope? with
    | some scope =>
      rw [hscope] at hrefusal
      cases hrefusal
    | none =>
      rw [hscope] at hrefusal
      cases hrefusal
      exact declare_refused hconst hscope kind r.value r.loc
  | none =>
    rw [hkind] at hrefusal
    cases hrefusal
    exact write_refused hconst r.value r.loc

section Accepted

variable (hs : s.WellFormed) (hroom : s.heap.used + Heap.bindingCost ≤ s.heap.limit)
  (hv : s.heap.HasPublic v)
include hs hroom hv

theorem declare_local {scope : ObjectId} (hscope : s.scope? = some scope) (kind : DeclareKind)
    (name : String) (loc : Location)
    : ∃ s', Run.declare kind name v loc env s = .done () s' ∧
        s.Rebound ⟨name, v, decide (kind ≠ .const)⟩ s' := by
  refine ⟨_, ?_, hs.rebound_local hroom hscope (Or.inl rfl) hv _⟩
  unfold Run.declare
  rw [Run.get_bind, hscope]
  exact heap_done (Heap.declare_of_room hroom scope name v _).1 loc env

theorem declare_top (hscope : s.scope? = none) (hfree : ¬ s.Constant name) (kind : DeclareKind)
    (loc : Location)
    : ∃ s', Run.declare kind name v loc env s = .done () s' ∧
        s.Rebound ⟨name, v, decide (kind ≠ .const)⟩ s' := by
  have hfound := findBinding?_of_top hscope name
  have hfree : name ∉ s.consts := fun hmem => hfree (hs.constant_of_mem_consts hroom hfound hmem)
  obtain ⟨s', hs', hdeclare⟩ := Run.declare_global hscope hfree kind v loc env
  refine ⟨s', ?_, ?_⟩
  . rw [hdeclare, (Heap.setProperty_of_room hroom s.global name v).1]
  . rw [hs']
    exact hs.rebound_global hroom hfound hfree (fun _ => hscope) hv

theorem write_free (hfree : ¬ s.Constant name) (loc : Location)
    : ∃ s', Run.writeVariable name v loc env s = .done () s' ∧ s.Rebound ⟨name, v, true⟩ s' := by
  unfold Run.writeVariable
  rw [Run.get_bind]
  cases hfound : s.findBinding? name with
  | some place =>
    obtain ⟨id, i⟩ := place
    obtain ⟨b, hplace, hb⟩ := binding?_of_findBinding? hfound
    have hmutable : (s.heap.binding? id i).map Binding.mutable = some true := by
      rw [hplace]
      cases hfixed : b.mutable with
      | true => exact congrArg some hfixed
      | false => exact absurd ⟨b, hb, hfixed⟩ hfree
    obtain ⟨scope, hscope, hfound⟩ := Option.bind_eq_some_iff.1 hfound
    have hassign := Heap.assignBinding_eq (v := v) (Heap.bindingIndex?_of_findBinding? hfound) hmutable
    refine ⟨_, ?_, hs.rebound_local hroom hscope (Or.inr ⟨i, hfound⟩) hv true⟩
    dsimp only
    rw [if_pos (by rw [hmutable]; rfl), ← hassign]
    rfl
  | none =>
    have hfree : name ∉ s.consts := fun hmem => hfree (hs.constant_of_mem_consts hroom hfound hmem)
    have hvar : DeclareKind.var = .const → s.scope? = none := fun h => by cases h
    refine ⟨_, ?_, hs.rebound_global hroom hfound hfree hvar hv⟩
    dsimp only
    rw [if_neg (by simpa using hfree)]
    exact heap_done (Heap.setProperty_of_room hroom s.global name v).1 loc env

end Accepted

theorem run_of_not_refused (env : Env) (hs : s.WellFormed)
    (hroom : s.heap.used + Heap.bindingCost ≤ s.heap.limit) (hv : s.heap.HasPublic r.value)
    (hrefusal : s.Constant r.name → r.refusal? s.scope?.isNone = none)
    : ∃ s', r.run env s = .done () s' ∧ s.Rebound r.binding s' := by
  obtain ⟨kind?, name, value, loc⟩ := r
  cases kind? with
  | some kind =>
    have hkind : decide ((some kind : Option DeclareKind) ≠ some .const) = decide (kind ≠ .const) := by simp
    unfold binding
    rw [hkind]
    cases hscope : s.scope? with
    | some scope => exact declare_local hs hroom hv hscope kind name loc
    | none =>
      apply declare_top hs hroom hv hscope _ kind loc
      intro hconst
      have hnone := hrefusal hconst
      rw [hscope] at hnone
      cases hnone
  | none =>
    apply write_free hs hroom hv _ loc
    intro hconst
    cases hrefusal hconst

end Rebinding

theorem Rebound.constant_iff {r : Rebinding} (hr : s.Rebound r.binding s') (hfree : ¬ s.Constant r.name)
    (name : String)
    : s'.Constant name ↔ s.Constant name ∨ name = r.name ∧ r.kind? = some .const := by
  unfold Constant
  rw [hr.binding]
  by_cases hname : name = r.name
  . have hself : Function.update s.binding? r.binding.name (some r.binding) r.name = some r.binding :=
      Function.update_self ..
    rw [hname, hself]
    constructor
    . rintro ⟨b, hb, hmutable⟩
      cases hb
      exact Or.inr ⟨rfl, by simpa [Rebinding.binding] using hmutable⟩
    . rintro (hconst | ⟨-, hkind⟩)
      . exact absurd hconst hfree
      . exact ⟨r.binding, rfl, by simp [Rebinding.binding, hkind]⟩
  . have hother : Function.update s.binding? r.binding.name (some r.binding) name = s.binding? name :=
      Function.update_of_ne hname ..
    rw [hother]
    simp only [hname, false_and, or_false]

theorem Rebound.readVariable? {b : Binding} (hr : s.Rebound b s') (name : String)
    : s'.readVariable? name = if name = b.name then some b.value else s.readVariable? name := by
  rw [readVariable?_eq, readVariable?_eq, hr.binding]
  by_cases hname : name = b.name
  . rw [if_pos hname, hname, Function.update_self]
    rfl
  . rw [if_neg hname, Function.update_of_ne hname]

/-- What the steps come to, one after the other, whether they succeed or fail. -/
def results (env : Env) : List Rebinding → Session → List (Outcome Unit)
  | [], _ => []
  | r :: rs, s =>
    match r.run env s with
    | .done () s' => .done () s' :: results env rs s'
    | .thrown e s' => .thrown e s' :: results env rs s'
    | .stopped why => [.stopped why]

/-- Two steps succeed or are refused for the same reason, and the names have the same values after them. -/
inductive Alike (names : Set String) : Outcome Unit → Outcome Unit → Prop
  | done {s t : Session} (hreads : ∀ name ∈ names, s.readVariable? name = t.readVariable? name)
    : Alike names (.done () s) (.done () t)
  | refused {s t : Session} {e e' : Exception}
      (hcause : e.fault.cause = .constAssignment ∨ ∃ name, e.fault.cause = .redeclaration name)
      (hsame : e'.fault.cause = e.fault.cause)
      (hreads : ∀ name ∈ names, s.readVariable? name = t.readVariable? name)
    : Alike names (.thrown e s) (.thrown e' t)

/-- The two sessions after a step that has bound a constant anew in the one and failed in the other. -/
structure Parted (names : Set String) (later : Rebinding) (v : Value) (x y : Outcome Unit) (s t : Session)
    : Prop where
  inside : x = .done () s
  top : y = .thrown (t.exception (.redeclaration later.name) later.loc) t
  rebound : s.readVariable? later.name = some later.value
  kept : t.readVariable? later.name = some v
  reads : ∀ name ∈ names, name ≠ later.name → s.readVariable? name = t.readVariable? name

/--
A session in a function and one at top level that read the names alike. Those of them that are going to
be bound are bound alike as well.
-/
structure Matched (names own : Set String) (bindings : Nat) (s t : Session) : Prop where
  inside : s.scope?.isNone = false
  top : t.scope?.isNone = true
  wellFormed : s.WellFormed ∧ t.WellFormed
  room : s.HasRoom bindings ∧ t.HasRoom bindings
  reads : ∀ name ∈ names, s.readVariable? name = t.readVariable? name
  own : ∀ name ∈ own, s.binding? name = t.binding? name

section Matched

variable {names own : Set String} {bindings : Nat} {env : Env} {r : Rebinding} {rs : List Rebinding}

theorem HasRoom.less (hroom : s.HasRoom (bindings + 1)) : s.HasRoom bindings := by
  unfold HasRoom at *
  rw [Nat.succ_mul] at hroom
  omega

theorem results_done (hrun : r.run env s = .done () s') (rs : List Rebinding)
    : results env (r :: rs) s = .done () s' :: results env rs s' := by
  rw [results, hrun]

theorem results_thrown {e : Exception} (hrun : r.run env s = .thrown e s') (rs : List Rebinding)
    : results env (r :: rs) s = .thrown e s' :: results env rs s' := by
  rw [results, hrun]

/-- The values of the steps are for scripts, in both sessions. -/
def HavePublic (rs : List Rebinding) (s t : Session) : Prop :=
  ∀ r ∈ rs, s.heap.HasPublic r.value ∧ t.heap.HasPublic r.value

theorem HavePublic.rebound {b : Binding} {s₁ t₁ : Session} (hv : HavePublic (r :: rs) s t) (hs : s.Rebound b s₁)
    (ht : t.Rebound b t₁)
    : HavePublic rs s₁ t₁ := by
  intro r hr
  obtain ⟨hvs, hvt⟩ := hv r (List.mem_cons_of_mem _ hr)
  exact ⟨hs.keeps.heap.hasPublic hvs, ht.keeps.heap.hasPublic hvt⟩

theorem havePublic_of_plain (hplain : ∀ r ∈ rs, r.value.object? = none) : HavePublic rs s t :=
  fun r hr => ⟨Heap.hasPublic_of_object?_eq_none (hplain r hr), Heap.hasPublic_of_object?_eq_none (hplain r hr)⟩

namespace Matched

theorem constant_iff (hm : Matched names own bindings s t) (hr : r.name ∈ own)
    : s.Constant r.name ↔ t.Constant r.name := by
  unfold Constant
  rw [hm.own r.name hr]

theorem rebound {s₁ t₁ : Session} (hm : Matched names own (bindings + 1) s t)
    (hs : s.Rebound r.binding s₁) (ht : t.Rebound r.binding t₁)
    : Matched names own bindings s₁ t₁ where
  inside := by rw [hs.scope]; exact hm.inside
  top := by rw [ht.scope]; exact hm.top
  wellFormed := ⟨hs.wellFormed, ht.wellFormed⟩
  room := ⟨hs.room hm.room.1, ht.room hm.room.2⟩
  reads name hname := by rw [hs.readVariable?, ht.readVariable?, hm.reads name hname]
  own name hname := by
    rw [hs.binding, ht.binding]
    by_cases heq : name = r.binding.name
    . rw [heq, Function.update_self, Function.update_self]
    . rw [Function.update_of_ne heq, Function.update_of_ne heq, hm.own name hname]

theorem less (hm : Matched names own (bindings + 1) s t) : Matched names own bindings s t :=
  ⟨hm.inside, hm.top, hm.wellFormed, ⟨hm.room.1.less, hm.room.2.less⟩, hm.reads, hm.own⟩

/-- A name that is no constant is bound on both sides. -/
theorem step_free (env : Env) (hm : Matched names own (bindings + 1) s t)
    (hv : s.heap.HasPublic r.value ∧ t.heap.HasPublic r.value) (hr : r.name ∈ own)
    (hfree : ¬ t.Constant r.name)
    : ∃ s₁ t₁, r.run env s = .done () s₁ ∧ r.run env t = .done () t₁ ∧ s.Rebound r.binding s₁ ∧
        t.Rebound r.binding t₁ := by
  obtain ⟨s₁, hrun, hs₁⟩ := Rebinding.run_of_not_refused env hm.wellFormed.1 hm.room.1.one hv.1
    fun hconst => absurd ((hm.constant_iff hr).1 hconst) hfree
  obtain ⟨t₁, hrun', ht₁⟩ := Rebinding.run_of_not_refused env hm.wellFormed.2 hm.room.2.one hv.2
    fun hconst => absurd hconst hfree
  exact ⟨s₁, t₁, hrun, hrun', hs₁, ht₁⟩

/-- An assignment to a constant is refused on both sides. -/
theorem step_refused (env : Env) (hm : Matched names own bindings s t) (hr : r.name ∈ own)
    (hkind : r.kind? = none) (hconst : t.Constant r.name)
    : r.run env s = .thrown (s.exception .constAssignment r.loc) s ∧
        r.run env t = .thrown (t.exception .constAssignment r.loc) t := by
  have hrefusal : ∀ top, r.refusal? top = some .constAssignment := by
    intro top
    unfold Rebinding.refusal?
    rw [hkind]
  exact ⟨Rebinding.run_of_refusal? ((hm.constant_iff hr).2 hconst) (hrefusal _),
    Rebinding.run_of_refusal? hconst (hrefusal _)⟩

/-- A constant that is declared again is bound anew in the function, and stays as it is at top level. -/
theorem step_parts (env : Env) (hm : Matched names own (bindings + 1) s t) (hv : s.heap.HasPublic r.value)
    (hkind : r.kind? ≠ none) (hconst : t.Constant r.name)
    : ∃ s₁, r.run env s = .done () s₁ ∧ s.Rebound r.binding s₁ ∧
        r.run env t = .thrown (t.exception (.redeclaration r.name) r.loc) t := by
  obtain ⟨kind, hkind⟩ := Option.ne_none_iff_exists'.1 hkind
  have hrefusal : ∀ top, r.refusal? top = if top then some (.redeclaration r.name) else none := by
    intro top
    unfold Rebinding.refusal?
    rw [hkind]
  obtain ⟨s₁, hrun, hs₁⟩ := Rebinding.run_of_not_refused env hm.wellFormed.1 hm.room.1.one hv
    fun _ => by rw [hrefusal, hm.inside]; rfl
  refine ⟨s₁, hrun, hs₁, Rebinding.run_of_refusal? hconst ?_⟩
  rw [hrefusal, hm.top]
  rfl

/-- The constants after a step that binds a name are those before it, and maybe this one. -/
theorem redeclares_iff {t₁ : Session} (ht : t.Rebound r.binding t₁) (hfree : ¬ t.Constant r.name)
    : (∀ later ∈ rs, later.kind? ≠ none → ¬ t₁.Constant later.name)
        ↔ (∀ later ∈ rs, later.kind? ≠ none → ¬ t.Constant later.name) ∧
            ∀ later ∈ rs, ¬ later.Redeclares r := by
  simp only [ht.constant_iff hfree, Rebinding.Redeclares, not_or, not_and]
  constructor
  . intro hfree
    refine ⟨fun later hlater hkind => (hfree later hlater hkind).1, ?_⟩
    exact fun later hlater hname hkind => (hfree later hlater hkind).2 hname
  . rintro ⟨hfree, hnew⟩ later hlater hkind
    exact ⟨hfree later hlater hkind, fun hname => hnew later hlater hname hkind⟩

theorem alike_iff (hm : Matched names own rs.length s t) (hown : ∀ r ∈ rs, r.name ∈ own)
    (hv : HavePublic rs s t)
    : List.Forall₂ (Alike names) (results env rs s) (results env rs t)
        ↔ (∀ r ∈ rs, r.kind? ≠ none → ¬ t.Constant r.name) ∧
            rs.Pairwise fun earlier later => ¬ later.Redeclares earlier := by
  induction rs generalizing s t with
  | nil => simp [results]
  | cons r rs ih =>
    have hr : r.name ∈ own := hown r List.mem_cons_self
    have hvalue := hv r List.mem_cons_self
    have hown' : ∀ r ∈ rs, r.name ∈ own := fun r hr => hown r (List.mem_cons_of_mem _ hr)
    rw [List.forall_mem_cons, List.pairwise_cons]
    by_cases hconst : t.Constant r.name
    . cases hkind : r.kind? with
      | some kind =>
        -- the function accepts what is refused at top level
        have hsome : r.kind? ≠ none := by rw [hkind]; exact Option.some_ne_none kind
        obtain ⟨s₁, hrun, -, hrun'⟩ := hm.step_parts env hvalue.1 hsome hconst
        rw [results_done hrun, results_thrown hrun', List.forall₂_cons]
        constructor
        . rintro ⟨halike, -⟩
          cases halike
        . rintro ⟨⟨hfree, -⟩, -⟩
          exact absurd hconst (hfree (Option.some_ne_none kind))
      | none =>
        obtain ⟨hrun, hrun'⟩ := hm.step_refused env hr hkind hconst
        have hv' : HavePublic rs s t := fun r hr => hv r (List.mem_cons_of_mem _ hr)
        have hnew : ∀ later : Rebinding, ¬ later.Redeclares r := by
          rintro later ⟨-, -, hconst⟩
          rw [hkind] at hconst
          cases hconst
        rw [results_thrown hrun, results_thrown hrun', List.forall₂_cons, ih hm.less hown' hv']
        have halike : Alike names (.thrown (s.exception .constAssignment r.loc) s)
            (.thrown (t.exception .constAssignment r.loc) t) := .refused (Or.inl rfl) rfl hm.reads
        simp only [halike, hnew, true_and, ne_eq, not_true_eq_false, false_imp_iff, not_false_eq_true,
          implies_true]
    . obtain ⟨s₁, t₁, hrun, hrun', hs₁, ht₁⟩ := hm.step_free env hvalue hr hconst
      have hm₁ : Matched names own rs.length s₁ t₁ := hm.rebound hs₁ ht₁
      have halike : Alike names (.done () s₁) (.done () t₁) := .done hm₁.reads
      rw [results_done hrun, results_done hrun', List.forall₂_cons, ih hm₁ hown' (hv.rebound hs₁ ht₁),
        redeclares_iff ht₁ hconst]
      simp only [halike, hconst, true_and, not_false_eq_true, implies_true, and_assoc]

/-- Bindings that only make new constants leave the constants there are as they are. -/
theorem keeps_constant {t₁ : Session} (ht : t.Rebound r.binding t₁) (hfree : ¬ t.Constant r.name) {b : Binding}
    (hb : t.binding? name = some b) (hmutable : b.mutable = false)
    : t₁.binding? name = some b := by
  have hname : name ≠ r.binding.name := by
    intro heq
    apply hfree
    rw [heq] at hb
    exact ⟨b, hb, hmutable⟩
  rw [ht.binding, Function.update_of_ne hname, hb]

/-- The sessions part at the first step if it declares a constant again. -/
theorem parts_first {after : List Rebinding} {later : Rebinding} {b : Binding}
    (hm : Matched names own (later :: after).length s t) (hv : s.heap.HasPublic later.value)
    (hlater : later.kind? ≠ none) (hb : t.binding? later.name = some b) (hmutable : b.mutable = false)
    : ∃ x y s' t', (results env (later :: after) s)[0]? = some x ∧
        (results env (later :: after) t)[0]? = some y ∧ Parted names later b.value x y s' t' := by
  obtain ⟨s₁, hrun, hs₁, hrun'⟩ := hm.step_parts env hv hlater ⟨b, hb, hmutable⟩
  rw [results_done hrun, results_thrown hrun']
  refine ⟨_, _, s₁, t, rfl, rfl, rfl, rfl, ?_, ?_, ?_⟩
  . rw [hs₁.readVariable?]
    exact if_pos rfl
  . rw [readVariable?_eq, hb]
    rfl
  . intro name hname hne
    rw [hs₁.readVariable?, ← hm.reads name hname]
    exact if_neg hne

theorem parts {before after : List Rebinding} {later : Rebinding} {v : Value}
    (hm : Matched names own (before ++ later :: after).length s t)
    (hown : ∀ r ∈ before ++ later :: after, r.name ∈ own) (hv : HavePublic (before ++ later :: after) s t)
    (hfree : ∀ r ∈ before, r.kind? ≠ none → ¬ t.Constant r.name)
    (hbefore : before.Pairwise fun earlier later => ¬ later.Redeclares earlier) (hlater : later.kind? ≠ none)
    (hconst : (∃ b, t.binding? later.name = some b ∧ b.mutable = false ∧ b.value = v) ∨
      ∃ earlier ∈ before, later.Redeclares earlier ∧ earlier.value = v)
    : ∃ x y s' t', (results env (before ++ later :: after) s)[before.length]? = some x ∧
        (results env (before ++ later :: after) t)[before.length]? = some y ∧
        Parted names later v x y s' t' := by
  induction before generalizing s t with
  | nil =>
    rcases hconst with ⟨b, hb, hmutable, rfl⟩ | ⟨earlier, hmem, -⟩
    . exact hm.parts_first (hv later List.mem_cons_self).1 hlater hb hmutable
    . cases hmem
  | cons r before ih =>
    have hr : r.name ∈ own := hown r List.mem_cons_self
    have hvalue := hv r List.mem_cons_self
    have hown' : ∀ r ∈ before ++ later :: after, r.name ∈ own :=
      fun r hr => hown r (List.mem_cons_of_mem _ hr)
    obtain ⟨hfirst, hfree⟩ := List.forall_mem_cons.1 hfree
    obtain ⟨hnew, hbefore⟩ := List.pairwise_cons.1 hbefore
    by_cases hfixed : t.Constant r.name
    . have hkind : r.kind? = none := by
        by_contra hkind
        exact hfirst hkind hfixed
      obtain ⟨hrun, hrun'⟩ := hm.step_refused env hr hkind hfixed
      have hv' : HavePublic (before ++ later :: after) s t := fun r hr => hv r (List.mem_cons_of_mem _ hr)
      rw [List.cons_append, results_thrown hrun, results_thrown hrun']
      apply ih hm.less hown' hv' hfree hbefore
      rcases hconst with hconst | ⟨earlier, hmem, hredeclares, hvalue⟩
      . exact Or.inl hconst
      . rcases List.mem_cons.1 hmem with rfl | hmem
        . have hnone := hredeclares.2.2
          rw [hkind] at hnone
          cases hnone
        . exact Or.inr ⟨earlier, hmem, hredeclares, hvalue⟩
    . obtain ⟨s₁, t₁, hrun, hrun', hs₁, ht₁⟩ := hm.step_free env hvalue hr hfixed
      rw [List.cons_append, results_done hrun, results_done hrun']
      have hfree₁ := (redeclares_iff ht₁ hfixed).2 ⟨hfree, hnew⟩
      refine ih (hm.rebound hs₁ ht₁) hown' (hv.rebound hs₁ ht₁) hfree₁ hbefore ?_
      rcases hconst with ⟨b, hb, hmutable, hsame⟩ | ⟨earlier, hmem, hredeclares, hsame⟩
      . exact Or.inl ⟨b, keeps_constant ht₁ hfixed hb hmutable, hmutable, hsame⟩
      . rcases List.mem_cons.1 hmem with rfl | hmem
        . refine Or.inl ⟨earlier.binding, ?_, ?_, hsame⟩
          . rw [hredeclares.1, ht₁.binding]
            exact Function.update_self ..
          . simp [Rebinding.binding, hredeclares.2.2]
        . exact Or.inr ⟨earlier, hmem, hredeclares, hsame⟩

end Matched

/-- Names that have no value are bound alike. -/
theorem matched (hs : s.WellFormed) (ht : t.WellFormed) (hinside : s.scope?.isSome)
    (htop : t.scope? = none) (hreads : ∀ name ∈ names, s.readVariable? name = t.readVariable? name)
    (hnew : ∀ r ∈ rs, r.name ∈ names ∧ s.readVariable? r.name = none)
    (hroom : s.HasRoom rs.length ∧ t.HasRoom rs.length)
    : Matched names {name | ∃ r ∈ rs, r.name = name} rs.length s t := by
  refine ⟨by rw [Option.isNone_eq_false_iff]; exact hinside, by rw [htop]; rfl, ⟨hs, ht⟩, hroom, hreads, ?_⟩
  rintro _ ⟨r, hr, rfl⟩
  obtain ⟨hname, hnone⟩ := hnew r hr
  have hnone' := (hreads r.name hname).symm.trans hnone
  rw [readVariable?_eq, Option.map_eq_none_iff] at hnone hnone'
  rw [hnone, hnone']

/--
Take a function and the top level, of which some names are read alike, and steps for those of these names
that have no value. All steps come to the same in both if and only if no constant is declared again. Where
this happens for the first time, the function binds the name anew, and the declaration at top level fails and
changes nothing.
-/
theorem results_alike_iff (hs : s.WellFormed) (ht : t.WellFormed) (hinside : s.scope?.isSome)
    (htop : t.scope? = none) (hreads : ∀ name ∈ names, s.readVariable? name = t.readVariable? name)
    (hnew : ∀ r ∈ rs, r.name ∈ names ∧ s.readVariable? r.name = none) (hv : HavePublic rs s t)
    (hroom : s.HasRoom rs.length ∧ t.HasRoom rs.length)
    : (List.Forall₂ (Alike names) (results env rs s) (results env rs t)
          ↔ rs.Pairwise fun earlier later => ¬ later.Redeclares earlier) ∧
        ∀ before later after, rs = before ++ later :: after →
          (before.Pairwise fun earlier later => ¬ later.Redeclares earlier) →
          ∀ earlier ∈ before, later.Redeclares earlier →
            ∃ x y s' t', (results env rs s)[before.length]? = some x ∧
              (results env rs t)[before.length]? = some y ∧
              Parted names later earlier.value x y s' t' := by
  have hm := matched hs ht hinside htop hreads hnew hroom
  have hown : ∀ r ∈ rs, r.name ∈ {name | ∃ r ∈ rs, r.name = name} := fun r hr => ⟨r, hr, rfl⟩
  have hfree : ∀ r ∈ rs, r.kind? ≠ none → ¬ t.Constant r.name := by
    rintro r hr - ⟨b, hb, -⟩
    obtain ⟨hname, hnone⟩ := hnew r hr
    have hnone := (hreads r.name hname).symm.trans hnone
    rw [readVariable?_eq, hb] at hnone
    cases hnone
  constructor
  . rw [hm.alike_iff hown hv]
    exact ⟨fun hboth => hboth.2, fun hpairwise => ⟨hfree, hpairwise⟩⟩
  . rintro before later after rfl hbefore earlier hmem hredeclares
    have hfree' : ∀ r ∈ before, r.kind? ≠ none → ¬ t.Constant r.name :=
      fun r hr => hfree r (List.mem_append_left _ hr)
    exact hm.parts hown hv hfree' hbefore hredeclares.2.1 (Or.inr ⟨earlier, hmem, hredeclares, rfl⟩)

/-- A new scope that binds nothing is one around which there are no others. -/
theorem WellFormed.newScope (ht : t.WellFormed) {id : ObjectId} {h : Heap}
    (hallocate : Heap.exec (Heap.allocate (.scope none #[])) t.heap = (.ok id, h))
    : (t.withHeap h).WellFormed ∧ h.HasScope id ∧ (∀ name, h.findBinding? name id = none) ∧
        ∀ name, h.property? t.global name = t.heap.property? t.global name := by
  have hnone : ∀ v : Value, v ∉ (Heap.Op.allocate (.scope none #[])).values := fun v hv => by cases hv
  have houtermost : ∀ outer : ObjectId, outer ∉ (none : Option ObjectId) := fun _ houter => by cases houter
  have hnames : (Heap.Op.allocate (.scope none #[])).Names t.heap :=
    ⟨fun v hv => absurd hv (hnone v), fun outer houter => absurd houter (houtermost outer)⟩
  have happly : (Heap.Op.allocate (.scope none #[])).apply t.heap = h := congrArg Prod.snd hallocate
  have hcontent := Heap.content_allocated hallocate
  refine ⟨?_, ?_, fun name => ?_, fun name => ?_⟩
  . rw [← happly]
    apply ht.withHeap (Heap.retains_apply _ t.heap) (Discipline.linked_apply ht.linked hnames).2
    . apply ht.heap.apply
      exact ⟨fun v hv => absurd hv (hnone v), fun outer houter => absurd houter (houtermost outer)⟩
    . apply Heap.keeps_allocate _ t.heap ht.closures
      intro f scope script hclosure
      cases hclosure
  . unfold Heap.HasScope
    rw [hcontent]
    rfl
  . have hindex : h.bindingIndex? id name = none := by
      rw [Heap.bindingIndex?_of_content hcontent]
      exact Array.findIdx?_empty
    rw [Heap.findBinding?, hindex, hcontent]
  . rw [← happly]
    exact ht.linked.heap.property?_apply hnames ht.linked.roots.global fun _ => Heap.Op.noConfusion

/-- A call of a function that was made at top level, before its first variable, reads all names as there. -/
theorem WellFormed.entered (ht : t.WellFormed) (htop : t.scope? = none) {id : ObjectId} {h : Heap}
    (hallocate : Heap.exec (Heap.allocate (.scope none #[])) t.heap = (.ok id, h)) {frame : Frame}
    (hscope : frame.scope = some id) (hscript : frame.script.index < t.scripts.size) {stack : CallStack}
    (hpush : t.stack.push? frame = some stack)
    : ((t.withHeap h).moved stack t.expressionDepth).WellFormed ∧
        ((t.withHeap h).moved stack t.expressionDepth).scope? = some id ∧
        ∀ name, ((t.withHeap h).moved stack t.expressionDepth).readVariable? name
          = t.readVariable? name := by
  obtain ⟨hmade, hid, hunbound, hglobal⟩ := ht.newScope hallocate
  have hcurrent : ((t.withHeap h).moved stack t.expressionDepth).scope? = some id := by
    have hframe : stack.current? = some frame := CallStack.current?_push? hpush
    change stack.current?.bind Frame.scope = some id
    rw [hframe]
    exact hscope
  refine ⟨?_, hcurrent, fun name => ?_⟩
  . have hmove : Discipline.encapsulated.Enters {} (t.withHeap h) stack t.expressionDepth := by
      have hcode : Discipline.encapsulated.Code t.scripts (some frame.script) [] := ⟨_, rfl, hscript⟩
      refine .frame hpush hcode ?_ ?_
      . rintro outer houter
        rw [hscope] at houter
        cases houter
        exact hid
      . exact fun loc script hrunning => ⟨script, rfl, hmade.current hrunning⟩
    exact Discipline.encapsulated_moved hmade hmove
  . have hfound : ((t.withHeap h).moved stack t.expressionDepth).findBinding? name = none :=
      (findBinding?_of_scope? hcurrent name).trans (hunbound name)
    unfold readVariable?
    rw [hfound, findBinding?_of_top htop]
    exact hglobal name

end Matched

/-- The only call that is running is one of a function of the first script, with this scope. -/
def singleCall (scope : ObjectId) : CallStack where
  frames := #[{ script := ⟨0⟩, scope := some scope }]
  maxDepth := Config.maxCallDepth {}

/-- After a script there is memory for many variables more. -/
theorem scripted_spec
    : ∃ p, scripted? "" = some p ∧
        (Heap.exec (Heap.allocate (.scope none #[])) p.2.heap).1.toOption = some ⟨12⟩ ∧
        p.2.stack.push? { script := ⟨0⟩, scope := some ⟨12⟩ } = some (singleCall ⟨12⟩) ∧
        0 < p.2.scripts.size ∧ p.2.scope? = none ∧
        p.2.readVariable? "x" = none ∧ p.2.readVariable? "y" = none ∧
        (Heap.exec (Heap.allocate (.scope none #[])) p.2.heap).2.used + 3 * Heap.bindingCost
          ≤ (Heap.exec (Heap.allocate (.scope none #[])) p.2.heap).2.limit ∧
        p.2.heap.used + 3 * Heap.bindingCost ≤ p.2.heap.limit := by
  decide +kernel

/-- A session in a function, and one at top level that reads all names alike. -/
theorem exists_alike
    : ∃ s t : Session, s.WellFormed ∧ t.WellFormed ∧ s.scope?.isSome ∧ t.scope? = none ∧
        (∀ name, s.readVariable? name = t.readVariable? name) ∧
        s.readVariable? "x" = none ∧ s.readVariable? "y" = none ∧ s.HasRoom 3 ∧ t.HasRoom 3 := by
  obtain ⟨⟨_, t⟩, hp, hid, hpush, hsize, htop, hx, hy, hroom, hroom'⟩ := scripted_spec
  have ht : t.WellFormed := (visited_of_scripted? hp).wellFormed
  obtain ⟨h, hallocate⟩ : ∃ h, Heap.exec (Heap.allocate (.scope none #[])) t.heap = (.ok ⟨12⟩, h) := by
    rcases hexec : Heap.exec (Heap.allocate (.scope none #[])) t.heap with ⟨_ | id, h⟩
    . rw [hexec] at hid
      cases hid
    . rw [hexec] at hid
      cases hid
      exact ⟨h, rfl⟩
  obtain ⟨hs, hscope, hreads⟩ := ht.entered htop hallocate rfl hsize hpush
  rw [hallocate] at hroom
  refine ⟨_, t, hs, ht, by rw [hscope]; rfl, htop, hreads, ?_, ?_, hroom, hroom'⟩
  . exact (hreads "x").trans hx
  . exact (hreads "y").trans hy

/-- A constant, an attempt to change it, and a variable. -/
def constOnce : List Rebinding :=
  [⟨some .const, "x", .bool true, ⟨1, 7, 6, 1⟩⟩, ⟨none, "x", .bool false, ⟨2, 1, 10, 1⟩⟩,
    ⟨some .let, "y", .null, ⟨3, 5, 16, 1⟩⟩]

/-- The steps declare no constant again, and come to the same in a function and at top level. -/
theorem results_alike_constOnce
    : ∃ s t : Session, s.scope?.isSome ∧ t.scope? = none ∧
        List.Forall₂ (Alike Set.univ) (results aloneEnv constOnce s) (results aloneEnv constOnce t) := by
  obtain ⟨s, t, hs, ht, hinside, htop, hreads, hx, hy, hroom⟩ := exists_alike
  refine ⟨s, t, hinside, htop, ?_⟩
  have hnew : ∀ r ∈ constOnce, r.name ∈ Set.univ ∧ s.readVariable? r.name = none := by
    intro r hr
    refine ⟨Set.mem_univ _, ?_⟩
    simp only [constOnce, List.mem_cons, List.not_mem_nil, or_false] at hr
    rcases hr with rfl | rfl | rfl
    . exact hx
    . exact hx
    . exact hy
  have hv : HavePublic constOnce s t := havePublic_of_plain (by decide)
  refine (results_alike_iff hs ht hinside htop (fun name _ => hreads name) hnew hv hroom).1.2 ?_
  simp [constOnce, Rebinding.Redeclares]

/-- A constant, and a variable of the same name. -/
def constTwice : List Rebinding :=
  [⟨some .const, "x", .bool true, ⟨1, 7, 6, 1⟩⟩, ⟨some .let, "x", .bool false, ⟨1, 18, 17, 1⟩⟩]

/-- The steps declare a constant again, and do not come to the same in a function and at top level. -/
theorem results_not_alike_constTwice
    : ∃ s t : Session, s.WellFormed ∧ t.WellFormed ∧ s.scope?.isSome ∧ t.scope? = none ∧
        (∀ name, s.readVariable? name = t.readVariable? name) ∧
        (∀ r ∈ constTwice, s.readVariable? r.name = none) ∧ HavePublic constTwice s t ∧
        s.HasRoom constTwice.length ∧ t.HasRoom constTwice.length ∧
        ¬ List.Forall₂ (Alike Set.univ) (results aloneEnv constTwice s) (results aloneEnv constTwice t) := by
  obtain ⟨s, t, hs, ht, hinside, htop, hreads, hx, -, hroom, hroom'⟩ := exists_alike
  have hnew : ∀ r ∈ constTwice, s.readVariable? r.name = none := by
    intro r hr
    simp only [constTwice, List.mem_cons, List.not_mem_nil, or_false] at hr
    rcases hr with rfl | rfl <;> exact hx
  have hv : HavePublic constTwice s t := havePublic_of_plain (by decide)
  refine ⟨s, t, hs, ht, hinside, htop, hreads, hnew, hv, hroom.less, hroom'.less, ?_⟩
  have hnew' : ∀ r ∈ constTwice, r.name ∈ Set.univ ∧ s.readVariable? r.name = none :=
    fun r hr => ⟨Set.mem_univ _, hnew r hr⟩
  have hm := matched hs ht hinside htop (fun name _ => hreads name) hnew' ⟨hroom.less, hroom'.less⟩
  rw [hm.alike_iff (fun r hr => ⟨r, hr, rfl⟩) hv]
  simp [constTwice, Rebinding.Redeclares]

end ScriptHost.Session
