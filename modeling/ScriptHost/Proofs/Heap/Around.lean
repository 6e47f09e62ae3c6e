import ScriptHost.Proofs.Heap.Scopes
import ScriptHost.Proofs.Heap.Store
import ScriptHost.Proofs.Syntax.Occurs

/-!
This module contains the scopes of a call: its own one, which binds all names that the body declares, and
those of the handlers that it is in. No operation changes that, and the lookup of such a name ends in them.
-/

namespace ScriptHost.Heap

variable {h h' : Heap} {id scope : ObjectId} {name : String} {body : List Stmt} {scopes : List ObjectId}

/-- A scope itself binds a name. -/
def Binds (h : Heap) (id : ObjectId) (name : String) : Prop :=
  (h.bindingIndex? id name).isSome

instance (h : Heap) (id : ObjectId) (name : String) : Decidable (h.Binds id name) :=
  inferInstanceAs (Decidable ((h.bindingIndex? id name).isSome = true))

/-- A scope binds all names that a body declares, wherever it does, but for those of nested functions. -/
def BindsAll (h : Heap) (scope : ObjectId) (body : List Stmt) : Prop :=
  ∀ st, Stmt.Occurs body st → ∀ name ∈ st.declared, h.Binds scope name

theorem bindsAll_iff : h.BindsAll scope body ↔ ∀ name ∈ (Stmt.hoistedAll body).names, h.Binds scope name := by
  constructor
  . intro hbound name hname
    obtain ⟨st, hst, hname⟩ := Stmt.mem_hoistedAll_iff.1 hname
    exact hbound st hst name hname
  . exact fun hbound st hst name hname => hbound name (Stmt.mem_hoistedAll_iff.2 ⟨st, hst, hname⟩)

theorem bindsAll_of_hoisted (hvars : ∀ v ∈ (Stmt.hoistedAll body).vars, h.Binds scope v.1)
    (hfunctions : ∀ f ∈ (Stmt.hoistedAll body).functions, ∀ name ∈ f.name, h.Binds scope name)
    : h.BindsAll scope body := by
  refine bindsAll_iff.2 fun name hname => ?_
  rcases List.mem_append.1 hname with hname | hname
  . obtain ⟨v, hv, rfl⟩ := List.mem_map.1 hname
    exact hvars v hv
  . obtain ⟨f, hf, hname⟩ := List.mem_filterMap.1 hname
    exact hfunctions f hf name hname

instance (h : Heap) (scope : ObjectId) (body : List Stmt) : Decidable (h.BindsAll scope body) :=
  decidable_of_iff _ bindsAll_iff.symm

/-- The first of some scopes that binds a name, and where it does. -/
def findAmong? (h : Heap) (name : String) (scopes : List ObjectId) : Option (ObjectId × Nat) :=
  scopes.findSome? fun id => (h.bindingIndex? id name).map fun i => (id, i)

/-- The scopes of a call of a function with that body, the innermost one first. -/
inductive Around (h : Heap) (body : List Stmt) : List ObjectId → Prop where
  | call {scope : ObjectId} (hscope : h.HasScope scope) (hbound : h.BindsAll scope body)
    : Around h body [scope]
  | handler {scope outer : ObjectId} {scopes : List ObjectId} (hscope : h.HasScope scope)
      (houter : (h.content scope).scope? = some outer) (hscopes : Around h body (outer :: scopes))
    : Around h body (scope :: outer :: scopes)

theorem binds_iff_bound? : h.Binds id name ↔ (h.bound? id name).isSome := by
  unfold Binds
  rw [← not_iff_not, Option.not_isSome_iff_eq_none, Option.not_isSome_iff_eq_none, bound?_eq_none_iff]

theorem Binds.hasScope (hb : h.Binds id name) : h.HasScope id := by
  obtain ⟨i, hi⟩ := Option.isSome_iff_exists.1 hb
  exact hasScope_of_bindingIndex? hi

theorem Binds.of_content (hb : h.Binds id name) (hcontent : h'.content id = h.content id)
    : h'.Binds id name := by
  unfold Binds bindingIndex?
  rw [hcontent]
  exact hb

/-- Names that are bound stay bound. -/
theorem Binds.apply (hb : h.Binds id name) (op : Op) : (op.apply h).Binds id name := by
  have hid := hb.hasScope
  cases hresult : op.result h with
  | error e =>
    rw [(failed_of_result_error hresult).apply]
    exact hb
  | ok =>
    by_cases htarget : op.target? = some id
    . cases op with
      | allocate content => cases htarget
      | setProperty id' key v => exact hb.of_content (content_setProperty hid.has)
      | setElement id' index v =>
        cases htarget
        have hset : exec (Heap.setElement id index v) h = (.ok (), (Op.setElement id index v).apply h) :=
          Prod.ext hresult rfl
        apply hb.of_content
        obtain ⟨parent, bindings, hcontent⟩ := hid.content
        rw [(setElement_done hset hid.has).1, if_pos rfl, hcontent]
        rfl
      | declare id' name' v mutable =>
        cases htarget
        rw [binds_iff_bound?, bound?_declare hid hid.has hresult]
        split
        . rfl
        . exact binds_iff_bound?.1 hb
    . apply hb.of_content
      unfold content
      rw [object_apply_of_ne hid.has htarget]

theorem binds_declare {v : Value} {mutable : Bool} (hscope : h.HasScope scope)
    (hok : (Op.declare scope name v mutable).result h = .ok ())
    : ((Op.declare scope name v mutable).apply h).Binds scope name := by
  rw [binds_iff_bound?, bound?_declare hscope hscope.has hok, if_pos ⟨rfl, rfl⟩]
  rfl

namespace Around

theorem mono (ha : h.Around body scopes) (hr : Retains h h')
    (hbinds : ∀ id name, h.Binds id name → h'.Binds id name)
    : h'.Around body scopes := by
  induction ha with
  | call hscope hbound =>
    exact .call (hr.hasScope hscope) fun st hst name hname => hbinds _ _ (hbound st hst name hname)
  | handler hscope houter _ ih =>
    exact .handler (hr.hasScope hscope) ((hr.scope? hscope.has).trans houter) ih

/-- The lookup of a name that the body declares ends in one of the scopes of the call. -/
theorem findBinding?_eq (hw : h.WellFormed) (ha : h.Around body (scope :: scopes)) {st : Stmt}
    (hst : Stmt.Occurs body st) (hname : name ∈ st.declared)
    : h.findBinding? name scope = h.findAmong? name (scope :: scopes) ∧
        (h.findAmong? name (scope :: scopes)).isSome := by
  obtain ⟨all, hall⟩ : ∃ all, all = scope :: scopes := ⟨_, rfl⟩
  rw [← hall] at ha
  induction ha generalizing scope scopes with
  | @call scope' hscope hbound =>
    cases hall
    obtain ⟨i, hi⟩ := Option.isSome_iff_exists.1 (hbound st hst name hname)
    unfold findAmong?
    rw [hw.findBinding?_eq, List.findSome?_cons, hi]
    exact ⟨rfl, rfl⟩
  | @handler scope' outer scopes' hscope houter _ ih =>
    cases hall
    obtain ⟨parent, bindings, hcontent⟩ := hscope.content
    rw [hcontent] at houter
    have hparent : parent = some outer := houter
    unfold findAmong?
    rw [hw.findBinding?_eq, List.findSome?_cons, hcontent, hparent]
    cases h.bindingIndex? scope' name with
    | some i => exact ⟨rfl, rfl⟩
    | none => exact ih rfl

end Around

end ScriptHost.Heap
