import Mathlib.Logic.Function.Basic
import ScriptHost.Proofs.Heap.Scopes
import ScriptHost.Proofs.Session.WellFormed

/-!
This module contains what names are bound to in a session, and how that changes when one of them is bound:
as a global variable, in the running scope, or in a scope around it.
-/

namespace ScriptHost

namespace Heap

variable {h : Heap} {id : ObjectId} {key name : String} {v : Value} {mutable : Bool}

/-- What it takes at most to bind a name: a slot or a binding, and a shape for a slot. -/
def bindingCost : Nat := pointerSize + shapeSize

theorem setProperty_of_room (hroom : h.used + bindingCost ≤ h.limit) (id : ObjectId) (key : String)
    (v : Value)
    : exec (setProperty id key v) h = (.ok (), (Op.setProperty id key v).apply h) ∧
        ((Op.setProperty id key v).apply h).used ≤ h.used + bindingCost := by
  change exec (setProperty id key v) h = (.ok (), (exec (setProperty id key v) h).2) ∧
    (exec (setProperty id key v) h).2.used ≤ h.used + bindingCost
  have hused : (h.charged pointerSize).used = h.used + pointerSize := rfl
  have hlimit : (h.charged pointerSize).limit = h.limit := rfl
  have hcost : bindingCost = pointerSize + shapeSize := rfl
  rcases setProperty_cases id key v h with ⟨slot, -, hexec⟩ | ⟨-, hfull, -⟩ |
    ⟨e, -, -, htransition, -⟩ | ⟨shape, h₁, -, -, htransition, hexec⟩
  . rw [hexec]
    exact ⟨rfl, Nat.le_add_right _ _⟩
  . omega
  . rcases transition_cases (h.object id).shape key (h.charged pointerSize) with ⟨t, -, hexec⟩ |
      ⟨-, hfull, -⟩ | ⟨-, -, hexec⟩
    . rw [htransition] at hexec
      cases hexec
    . omega
    . rw [htransition] at hexec
      cases hexec
  . rw [hexec]
    refine ⟨rfl, ?_⟩
    change h₁.used ≤ _
    rcases transition_cases (h.object id).shape key (h.charged pointerSize) with ⟨t, -, hexec⟩ |
      ⟨-, hfull, -⟩ | ⟨-, -, hexec⟩
    . rw [htransition] at hexec
      cases hexec
      omega
    . omega
    . rw [htransition] at hexec
      cases hexec
      change h.used + pointerSize + shapeSize ≤ _
      omega

theorem declare_of_room (hroom : h.used + bindingCost ≤ h.limit) (id : ObjectId) (name : String)
    (v : Value) (mutable : Bool)
    : exec (declare id name v mutable) h = (.ok (), (Op.declare id name v mutable).apply h) ∧
        ((Op.declare id name v mutable).apply h).used ≤ h.used + bindingCost := by
  change exec (declare id name v mutable) h = (.ok (), (exec (declare id name v mutable) h).2) ∧
    (exec (declare id name v mutable) h).2.used ≤ h.used + bindingCost
  have hcost : bindingCost = pointerSize + shapeSize := rfl
  rcases declare_cases id name v mutable h with ⟨i, -, hexec⟩ | ⟨-, hfull, -⟩ | ⟨-, -, hexec⟩
  . rw [hexec]
    exact ⟨rfl, Nat.le_add_right _ _⟩
  . omega
  . rw [hexec]
    refine ⟨rfl, ?_⟩
    change h.used + pointerSize ≤ _
    omega

theorem Linked.exists_property? (hl : h.Linked) (hid : h.Has id) (hkey : h.hasProperty id key = true)
    : ∃ v, h.property? id key = some v := by
  obtain ⟨slot, hslot⟩ := Option.isSome_iff_exists.1 hkey
  have hlt : slot < (h.object id).slots.size := by
    rw [← (hl.object hid).keys]
    exact (Array.findIdx?_eq_some_iff_getElem.1 hslot).1
  refine ⟨(h.object id).slots[slot], ?_⟩
  change ((h.shapeOf id).slot? key).bind (fun slot => (h.object id).slots[slot]?) = _
  rw [hslot]
  exact Array.getElem?_eq_getElem hlt

end Heap

namespace Session

variable {s s' : Session} {name : String} {v : Value}

/-- There is memory for so many bindings more. -/
def HasRoom (s : Session) (bindings : Nat) : Prop :=
  s.heap.used + bindings * Heap.bindingCost ≤ s.heap.limit

/-- What a name is bound to in the running scope or one around it. -/
def local? (s : Session) (name : String) : Option Binding :=
  s.scope?.bind (s.heap.lookup? name)

/-- A global variable, which cannot be changed if it is a constant. -/
def global? (s : Session) (name : String) : Option Binding :=
  (s.heap.property? s.global name).map fun v => ⟨name, v, !s.consts.contains name⟩

def binding? (s : Session) (name : String) : Option Binding :=
  (s.local? name).or (s.global? name)

/-- The name is that of a constant. -/
def Constant (s : Session) (name : String) : Prop :=
  ∃ b, s.binding? name = some b ∧ b.mutable = false

theorem binding?_of_findBinding? {id : ObjectId} {i : Nat} (hfound : s.findBinding? name = some (id, i))
    : ∃ b, s.heap.binding? id i = some b ∧ s.binding? name = some b := by
  obtain ⟨scope, hscope, hfound⟩ := Option.bind_eq_some_iff.1 hfound
  obtain ⟨parent, bindings, b, hcontent, hb, -⟩ :=
    Heap.binding?_of_bindingIndex? (Heap.bindingIndex?_of_findBinding? hfound)
  have hbinding : s.heap.binding? id i = some b := by
    unfold Heap.binding?
    rw [hcontent]
    exact hb
  have hlocal : s.local? name = some b := by
    unfold local? Heap.lookup?
    rw [hscope]
    change (s.heap.findBinding? name scope).bind _ = _
    rw [hfound]
    exact hbinding
  refine ⟨b, hbinding, ?_⟩
  unfold binding?
  rw [hlocal]
  rfl

/-- At top level, there are no scopes to find a name in. -/
theorem findBinding?_of_top (htop : s.scope? = none) (name : String) : s.findBinding? name = none := by
  unfold findBinding?
  rw [htop]
  rfl

theorem findBinding?_of_scope? {id : ObjectId} (hscope : s.scope? = some id) (name : String)
    : s.findBinding? name = s.heap.findBinding? name id := by
  unfold findBinding?
  rw [hscope]
  rfl

theorem local?_eq_none (hfound : s.findBinding? name = none) : s.local? name = none := by
  unfold local? Heap.lookup?
  cases hscope : s.scope? with
  | none => rfl
  | some scope =>
    rw [findBinding?_of_scope? hscope] at hfound
    change (s.heap.findBinding? name scope).bind _ = none
    rw [hfound]
    rfl

theorem binding?_of_not_found (hfound : s.findBinding? name = none) : s.binding? name = s.global? name := by
  unfold binding?
  rw [local?_eq_none hfound]
  rfl

theorem readVariable?_eq (s : Session) (name : String)
    : s.readVariable? name = (s.binding? name).map Binding.value := by
  unfold readVariable?
  cases hfound : s.findBinding? name with
  | some place =>
    obtain ⟨b, hb, hbinding⟩ := binding?_of_findBinding? hfound
    rw [hbinding]
    exact congrArg (Option.map Binding.value) hb
  | none =>
    rw [binding?_of_not_found hfound, global?, Option.map_map]
    exact Option.map_id'.symm

/-- The session after a name has been bound. Nothing else has changed that can be read. -/
structure Rebound (s : Session) (b : Binding) (s' : Session) : Prop where
  wellFormed : s'.WellFormed
  keeps : s.Keeps s'
  scope : s'.scope? = s.scope?
  binding : s'.binding? = Function.update s.binding? b.name (some b)
  used : s'.heap.used ≤ s.heap.used + Heap.bindingCost
  limit : s'.heap.limit = s.heap.limit

theorem Rebound.room {b : Binding} (hr : s.Rebound b s') {bindings : Nat} (hroom : s.HasRoom (bindings + 1))
    : s'.HasRoom bindings := by
  have hused := hr.used
  have hlimit := hr.limit
  unfold HasRoom at *
  rw [Nat.succ_mul] at hroom
  omega

theorem HasRoom.one {bindings : Nat} (hroom : s.HasRoom (bindings + 1))
    : s.heap.used + Heap.bindingCost ≤ s.heap.limit := by
  unfold HasRoom at hroom
  rw [Nat.succ_mul] at hroom
  omega

namespace WellFormed

variable (hs : s.WellFormed) (hroom : s.heap.used + Heap.bindingCost ≤ s.heap.limit)
include hs hroom

/-- While there is memory, the constants are global variables. -/
theorem constant_of_mem_consts (hfound : s.findBinding? name = none) (hmem : name ∈ s.consts)
    : s.Constant name := by
  have hglobal : s.heap.Has s.global := hs.linked.roots.global
  have hproperty : s.heap.hasProperty s.global name = true := by
    rcases hs.linked.consts name hmem with hproperty | hfull
    . exact hproperty
    . have hcost : Heap.bindingCost = pointerSize + shapeSize := rfl
      omega
  obtain ⟨v, hv⟩ := hs.linked.heap.exists_property? hglobal hproperty
  refine ⟨⟨name, v, !s.consts.contains name⟩, ?_, by simpa using hmem⟩
  rw [binding?_of_not_found hfound, global?, hv]
  rfl

/-- A global variable after it has been set, and maybe noted as a constant. -/
theorem rebound_global (hfound : s.findBinding? name = none) (hfree : name ∉ s.consts)
    {kind : DeclareKind} (hkind : kind = .const → s.scope? = none) (hv : s.heap.HasPublic v)
    : s.Rebound ⟨name, v, decide (kind ≠ .const)⟩ { s with
        heap := (Heap.Op.setProperty s.global name v).apply s.heap
        consts := if kind = .const then s.consts ++ [name] else s.consts } := by
  obtain ⟨s', hs'⟩ : ∃ s' : Session, s' = { s with
      heap := (Heap.Op.setProperty s.global name v).apply s.heap
      consts := if kind = .const then s.consts ++ [name] else s.consts } := ⟨_, rfl⟩
  obtain ⟨hset, hused⟩ := Heap.setProperty_of_room hroom s.global name v
  have hglobal : s.heap.Has s.global := hs.linked.roots.global
  have hchange : Discipline.encapsulated.Change s s' := by
    rw [hs']
    split
    . next hconst => exact .const (hkind hconst) hfree hv
    . exact .store (.variable hv (Or.inl hfree))
  obtain ⟨hkeeps, hwellFormed⟩ := Discipline.encapsulated_change hs hchange
  have hlocal : ∀ name', s'.local? name' = s.local? name' := by
    intro name'
    rw [hs'] at hwellFormed ⊢
    unfold local?
    change s.scope?.bind _ = _
    cases hscope : s.scope? with
    | none => rfl
    | some scope => exact hs.heap.lookup?_setProperty hwellFormed.heap (hs.scope hscope) name'
  have hvariable : ∀ name', s'.global? name'
      = if name' = name then some ⟨name, v, decide (kind ≠ .const)⟩ else s.global? name' := by
    intro name'
    have hread := hs.linked.heap.property?_setProperty hglobal hglobal hset name'
    rw [hs']
    unfold global?
    change (((Heap.Op.setProperty s.global name v).apply s.heap).property? s.global name').map _ = _
    rw [hread]
    simp only [true_and]
    by_cases hname : name' = name
    . rw [if_pos hname, if_pos hname, hname]
      by_cases hconst : kind = .const <;> simp [hconst, hfree]
    . rw [if_neg hname, if_neg hname]
      by_cases hconst : kind = .const <;> simp [hconst, hname]
  rw [← hs']
  refine ⟨hwellFormed, hkeeps, by rw [hs']; rfl, ?_, by rw [hs']; exact hused, ?_⟩
  . funext name'
    unfold binding?
    rw [hlocal, hvariable]
    by_cases hname : name' = name
    . rw [hname, local?_eq_none hfound, Function.update_self, if_pos rfl]
      rfl
    . rw [Function.update_of_ne hname, if_neg hname]
  . rw [hs']
    exact (Heap.paid_apply _ s.heap).limit

/-- A name after it has been bound in the running scope, or where a scope around it binds it. -/
theorem rebound_local {scope : ObjectId} (hscope : s.scope? = some scope) {place : ObjectId}
    (hplace : place = scope ∨ ∃ i, s.heap.findBinding? name scope = some (place, i))
    (hv : s.heap.HasPublic v) (mutable : Bool)
    : s.Rebound ⟨name, v, mutable⟩
        (s.withHeap ((Heap.Op.declare place name v mutable).apply s.heap)) := by
  obtain ⟨hdeclare, hused⟩ := Heap.declare_of_room hroom place name v mutable
  have hglobal : s.heap.Has s.global := hs.linked.roots.global
  have hwithin : s.heap.HasScope place := by
    rcases hplace with rfl | ⟨i, hfound⟩
    . exact hs.scope hscope
    . exact Heap.hasScope_of_bindingIndex? (Heap.bindingIndex?_of_findBinding? hfound)
  have hchange : Discipline.encapsulated.Change s
      (s.withHeap ((Heap.Op.declare place name v mutable).apply s.heap)) := .store (.binding hwithin hv)
  obtain ⟨hkeeps, hwellFormed⟩ := Discipline.encapsulated_change hs hchange
  have hok : (Heap.Op.declare place name v mutable).result s.heap = .ok () := congrArg Prod.fst hdeclare
  have hlocal : ∀ name', (s.withHeap ((Heap.Op.declare place name v mutable).apply s.heap)).local? name'
      = if name' = name then some ⟨name, v, mutable⟩ else s.local? name' := by
    intro name'
    unfold local?
    change s.scope?.bind _ = _
    rw [hscope]
    change ((Heap.Op.declare place name v mutable).apply s.heap).lookup? name' scope = _
    by_cases hname : name' = name
    . rw [if_pos hname, hname]
      rcases hplace with rfl | ⟨i, hfound⟩
      . exact Heap.lookup?_declare hwithin hwellFormed.heap hok
      . exact Heap.lookup?_declare_of_found hwithin hwellFormed.heap hok hs.heap (hs.scope hscope) hfound
    . rw [if_neg hname]
      exact Heap.lookup?_declare_of_ne hwithin hwellFormed.heap hok hs.heap (hs.scope hscope) hname
  have hvariable : ∀ name', (s.withHeap ((Heap.Op.declare place name v mutable).apply s.heap)).global? name'
      = s.global? name' := by
    intro name'
    have hnames : (Heap.Op.declare place name v mutable).Names s.heap := ⟨hwithin.has, hv.hasValue⟩
    unfold global?
    exact congrArg _ (hs.linked.heap.property?_apply hnames hglobal fun _ => Heap.Op.noConfusion)
  refine ⟨hwellFormed, hkeeps, rfl, ?_, hused, (Heap.paid_apply _ s.heap).limit⟩
  funext name'
  unfold binding?
  rw [hlocal, hvariable]
  by_cases hname : name' = name
  . rw [hname, Function.update_self, if_pos rfl]
    rfl
  . rw [Function.update_of_ne hname, if_neg hname]

end WellFormed

end Session
end ScriptHost
