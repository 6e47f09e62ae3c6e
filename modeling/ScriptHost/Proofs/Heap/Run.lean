import Mathlib.Logic.Relation
import ScriptHost.Proofs.Heap.Linked

/-!
This module contains the runs of a heap: sequences of operations, successful or not, that name objects of
the heap. Every operation is a sequence of single changes, and every heap that a run leads to is linked.
-/

namespace ScriptHost.Heap

variable {h h' : Heap}

inductive Op where
  | allocate (content : Content)
  | setProperty (id : ObjectId) (key : String) (value : Value)
  | setElement (id : ObjectId) (index : Nat) (value : Value)
  | declare (id : ObjectId) (name : String) (value : Value) (mutable : Bool)

namespace Op

/-- The heap after an operation, whether it has succeeded or failed. -/
def apply (h : Heap) : Op → Heap
  | allocate content => (exec (Heap.allocate content) h).2
  | setProperty id key value => (exec (Heap.setProperty id key value) h).2
  | setElement id index value => (exec (Heap.setElement id index value) h).2
  | declare id name value mutable => (exec (Heap.declare id name value mutable) h).2

def Names (h : Heap) : Op → Prop
  | allocate content => h.LinkedContent content
  | setProperty id _ value => h.Has id ∧ h.HasValue value
  | setElement id _ value => h.Has id ∧ h.HasValue value
  | declare id _ value _ => h.Has id ∧ h.HasValue value

instance (h : Heap) : (op : Op) → Decidable (op.Names h)
  | allocate content => inferInstanceAs (Decidable (h.LinkedContent content))
  | setProperty id _ value | setElement id _ value | declare id _ value _ =>
    inferInstanceAs (Decidable (h.Has id ∧ h.HasValue value))

end Op

/-- A single change of a heap. -/
inductive Step : Heap → Heap → Prop where
  | charge {h : Heap} {bytes : Nat} (hlimit : h.used + bytes ≤ h.limit) : Step h (h.charged bytes)
  | rootShape {h : Heap} {family : ShapeFamily} (hnew : h.rootShapes.lookup family = none)
    : Step h (h.addRootShape family)
  | transition {h : Heap} {source : ShapeId} {key : String} (hsource : h.HasShape source)
    (hnew : (h.shape source).transitions.find? (fun t => t.1 == key) = none)
    : Step h (h.addTransition source key)
  | object {h : Heap} {content : Content} {shape : ShapeId}
    (hshape : h.rootShapes.lookup content.family = some shape) (hcontent : h.LinkedContent content)
    : Step h (h.addObject content shape)
  | putSlot {h : Heap} {id : ObjectId} {slot : Nat} {value : Value} (hvalue : h.HasValue value)
    : Step h (h.putSlot id slot value)
  | addSlot {h : Heap} {id : ObjectId} {t : String × ShapeId} {value : Value}
    (ht : t ∈ (h.shapeOf id).transitions) (hvalue : h.HasValue value)
    : Step h (h.addSlot id t.2 value)
  | putElement {h : Heap} {id : ObjectId} {index : Nat} {value : Value} (hvalue : h.HasValue value)
    : Step h (h.putArrayElement id index value)
  | putBinding {h : Heap} {id : ObjectId} {i : Nat} {b : Binding} (hvalue : h.HasValue b.value)
    : Step h (h.putBinding id i b)
  | addBinding {h : Heap} {id : ObjectId} {b : Binding} (hvalue : h.HasValue b.value)
    : Step h (h.addBinding id b)

abbrev Steps : Heap → Heap → Prop :=
  Relation.ReflTransGen Step

theorem Step.grows (hs : Step h h') : Grows h h' := by
  cases hs with
  | charge => apply grows_charged
  | rootShape => apply grows_addRootShape
  | transition => apply grows_addTransition
  | object => apply grows_addObject
  | putSlot => apply grows_modifyObject
  | addSlot => apply grows_modifyObject
  | putElement => apply grows_modifyObject
  | putBinding => apply grows_modifyObject
  | addBinding => apply grows_modifyObject

theorem Steps.grows (hs : Steps h h') : Grows h h' := by
  induction hs with
  | refl => exact ⟨Nat.le_refl _, fun _ hid => ⟨hid, rfl⟩⟩
  | tail _ hs ih => exact ih.trans hs.grows

theorem Linked.step (hl : h.Linked) (hs : Step h h') : h'.Linked := by
  cases hs with
  | charge => apply hl.charged
  | rootShape => apply hl.addRootShape
  | transition hsource => exact hl.addTransition hsource _
  | object hshape hcontent => exact hl.addObject hshape hcontent
  | putSlot hvalue => exact hl.putSlot _ _ hvalue
  | addSlot ht hvalue => exact hl.addSlot ht hvalue
  | putElement hvalue => exact hl.putArrayElement _ _ hvalue
  | putBinding hvalue => exact hl.putBinding _ _ hvalue
  | addBinding hvalue => exact hl.addBinding _ hvalue

theorem Linked.steps (hl : h.Linked) (hs : Steps h h') : h'.Linked := by
  induction hs with
  | refl => exact hl
  | tail _ hs ih => exact ih.step hs

theorem charge_steps {bytes : Nat} (hlimit : h.used + bytes ≤ h.limit)
    : Steps h (h.charged bytes) :=
  .single (.charge hlimit)

theorem rootShape_steps {family : ShapeFamily} {shape : ShapeId}
    (hroot : exec (rootShape family) h = (.ok shape, h'))
    : Steps h h' ∧ h'.rootShapes.lookup family = some shape := by
  rcases rootShape_cases family h with ⟨shape', hlookup, hexec⟩ | ⟨-, -, hexec⟩ |
    ⟨hlookup, hlimit, hexec⟩
  . rw [hroot] at hexec
    cases hexec
    exact ⟨.refl, hlookup⟩
  . rw [hroot] at hexec
    cases hexec
  . rw [hroot] at hexec
    cases hexec
    refine ⟨(charge_steps hlimit).tail (.rootShape hlookup), ?_⟩
    have hroots : ((h.charged shapeSize).addRootShape family).rootShapes
        = h.rootShapes ++ [(family, ⟨h.shapes.size⟩)] := rfl
    rw [hroots, List.lookup_append, hlookup]
    simp

theorem transition_steps {source : ShapeId} {key : String} {shape : ShapeId}
    (hsource : h.HasShape source) (htransition : exec (transition source key) h = (.ok shape, h'))
    : Steps h h' ∧ (∃ t ∈ (h'.shape source).transitions, t.2 = shape) ∧ h'.objects = h.objects := by
  rcases transition_cases source key h with ⟨t, hfind, hexec⟩ | ⟨-, -, hexec⟩ |
    ⟨hfind, hlimit, hexec⟩
  . rw [htransition] at hexec
    cases hexec
    exact ⟨.refl, ⟨t, Array.mem_of_find?_eq_some hfind, rfl⟩, rfl⟩
  . rw [htransition] at hexec
    cases hexec
  . rw [htransition] at hexec
    cases hexec
    refine ⟨(charge_steps hlimit).tail (.transition hsource hfind), ?_, rfl⟩
    refine ⟨(key, ⟨h.shapes.size⟩), ?_, rfl⟩
    have hsource' : (h.charged shapeSize).HasShape source := hsource
    rw [shape_addTransition hsource']
    exact Array.mem_push_self

theorem allocate_steps {content : Content} (hcontent : h.LinkedContent content)
    : Steps h (exec (allocate content) h).2 := by
  rcases allocate_cases content h with ⟨-, hexec⟩ | ⟨e, hlimit, -, hexec⟩ |
    ⟨shape, h₁, hlimit, hroot, hexec⟩
  . rw [hexec]
  . rw [hexec]
    exact charge_steps hlimit
  . rw [hexec]
    obtain ⟨hsteps, hlookup⟩ := rootShape_steps hroot
    have hsteps := (charge_steps hlimit).trans hsteps
    exact hsteps.tail (.object hlookup ((Steps.grows hsteps).linkedContent hcontent))

theorem setProperty_steps {id : ObjectId} {value : Value} (hshape : h.HasShape (h.object id).shape)
    (hvalue : h.HasValue value) (key : String)
    : Steps h (exec (setProperty id key value) h).2 := by
  rcases setProperty_cases id key value h with ⟨slot, -, hexec⟩ | ⟨-, -, hexec⟩ |
    ⟨e, -, hlimit, -, hexec⟩ | ⟨shape, h₁, -, hlimit, htransition, hexec⟩
  . rw [hexec]
    exact .single (.putSlot hvalue)
  . rw [hexec]
  . rw [hexec]
    exact charge_steps hlimit
  . rw [hexec]
    have hsource : (h.charged pointerSize).HasShape (h.object id).shape := hshape
    obtain ⟨hsteps, ⟨t, ht, rfl⟩, hobjects⟩ := transition_steps hsource htransition
    have hsteps := (charge_steps hlimit).trans hsteps
    refine hsteps.tail (.addSlot ?_ ((Steps.grows hsteps).hasValue hvalue))
    unfold shapeOf object
    rw [hobjects]
    exact ht

theorem setElement_steps {value : Value} (hvalue : h.HasValue value) (id : ObjectId) (index : Nat)
    : Steps h (exec (setElement id index value) h).2 := by
  rcases setElement_cases id index value h with ⟨-, hexec⟩ | ⟨size, -, -, hexec⟩ |
    ⟨size, e, -, -, hexec⟩ | ⟨size, -, -, hlimit, hexec⟩
  . rw [hexec]
  . rw [hexec]
    exact .single (.putElement hvalue)
  . rw [hexec]
  . rw [hexec]
    exact (charge_steps hlimit).tail (.putElement hvalue)

theorem declare_steps {value : Value} (hvalue : h.HasValue value) (id : ObjectId) (name : String)
    (mutable : Bool)
    : Steps h (exec (declare id name value mutable) h).2 := by
  rcases declare_cases id name value mutable h with ⟨i, -, hexec⟩ | ⟨-, -, hexec⟩ |
    ⟨-, hlimit, hexec⟩
  . rw [hexec]
    exact .single (.putBinding hvalue)
  . rw [hexec]
  . rw [hexec]
    exact (charge_steps hlimit).tail (.addBinding hvalue)

theorem Linked.apply_steps (hl : h.Linked) {op : Op} (hop : op.Names h) : Steps h (op.apply h) := by
  cases op with
  | allocate content => exact allocate_steps hop
  | setProperty id key value => exact setProperty_steps (hl.object hop.1).shape hop.2 key
  | setElement id index value => exact setElement_steps hop.2 id index
  | declare id name value mutable => exact declare_steps hop.2 id name mutable

abbrev Reaches : Heap → Heap → Prop :=
  Relation.ReflTransGen fun h h' => ∃ op : Op, op.Names h ∧ op.apply h = h'

def Built (limit : Nat) (h : Heap) : Prop :=
  Reaches (empty limit) h

theorem Linked.reaches (hl : h.Linked) (hr : Reaches h h') : h'.Linked := by
  induction hr with
  | refl => exact hl
  | tail _ hop ih =>
    obtain ⟨op, hnames, rfl⟩ := hop
    exact ih.steps (ih.apply_steps hnames)

theorem Built.linked {limit : Nat} (hb : Built limit h) : h.Linked :=
  (linked_empty limit).reaches hb

end ScriptHost.Heap
