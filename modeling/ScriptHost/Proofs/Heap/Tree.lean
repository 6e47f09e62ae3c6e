import ScriptHost.Proofs.Heap.Retained

/-!
This module contains the trees that the shapes of a heap form, one for each family. A shape is the only one
of its family with its keys, so that objects share a shape exactly if they are of one family and got the
same keys in the same order. It makes no difference where operations have failed.
-/

namespace ScriptHost

/-- The shape without its transitions, which are all that is ever added to it. -/
def Shape.fixed (s : Shape) : Shape :=
  { s with transitions := #[] }

namespace Heap

/-- The object that an operation is about is there. -/
def Op.Targets (h : Heap) : Op → Prop
  | allocate _ => True
  | setProperty id _ _ | setElement id _ _ | declare id _ _ _ => h.Has id

instance (h : Heap) : (op : Op) → Decidable (op.Targets h)
  | .allocate _ => inferInstanceAs (Decidable True)
  | .setProperty id _ _ | .setElement id _ _ | .declare id _ _ _ => inferInstanceAs (Decidable (h.Has id))

/-- One heap becomes the other one by allowed operations, successful or not. -/
abbrev Runs (Allowed : Heap → Op → Prop) : Heap → Heap → Prop :=
  Relation.ReflTransGen fun h h' => ∃ op : Op, Allowed h op ∧ op.apply h = h'

/-- The shape `child` has one key more than `parent`, whose only transition for that key leads to it. -/
structure IsChild (h : Heap) (parent : ShapeId) (key : String) (child : ShapeId) : Prop where
  back : (h.shape child).back = some parent
  index_lt : parent.index < child.index
  family : (h.shape child).family = (h.shape parent).family
  keys : (h.shape child).keys = (h.shape parent).keys.push key
  new : key ∉ (h.shape parent).keys
  transition : (h.shape parent).transitions.filter (fun t => t.1 == key) = #[(key, child)]

/-- The object has a shape of its family, and a slot for every key of it. -/
structure Shaped (h : Heap) (o : HeapObject) : Prop where
  shape : h.HasShape o.shape
  family : (h.shape o.shape).family = o.content.family
  slots : o.slots.size = (h.shape o.shape).keys.size

structure Tree (h : Heap) : Prop where
  objects : ∀ o ∈ h.objects, h.Shaped o
  /-- A shape that comes from no other one is the root of its family. -/
  root : ∀ id, h.HasShape id → (h.shape id).back = none →
    (h.shape id).keys = #[] ∧ h.rootShapes.lookup (h.shape id).family = some id
  rootShapes : ∀ family id, h.rootShapes.lookup family = some id →
    h.HasShape id ∧ (h.shape id).back = none ∧ (h.shape id).family = family
  child : ∀ id parent, h.HasShape id → (h.shape id).back = some parent → ∃ key, h.IsChild parent key id
  transition : ∀ id, h.HasShape id → ∀ t ∈ (h.shape id).transitions, h.HasShape t.2 ∧ h.IsChild id t.1 t.2

variable {h h' : Heap} {id source parent child : ShapeId} {key : String}

theorem tree_empty (limit : Nat) : (empty limit).Tree where
  objects := by simp [empty]
  root := by simp [empty, HasShape]
  rootShapes := by simp [empty]
  child := by simp [empty, HasShape]
  transition := by simp [empty, HasShape]

/-- Only the transitions of the shapes may be others. -/
structure KeepsShapes (h h' : Heap) : Prop where
  has : ∀ id, h.HasShape id → h'.HasShape id
  fixed : ∀ id, h.HasShape id → (h'.shape id).fixed = (h.shape id).fixed

theorem keepsShapes_refl (h : Heap) : KeepsShapes h h :=
  ⟨fun _ hid => hid, fun _ _ => rfl⟩

namespace KeepsShapes

theorem trans {h'' : Heap} (hk : KeepsShapes h h') (hk' : KeepsShapes h' h'') : KeepsShapes h h'' where
  has := fun id hid => hk'.has id (hk.has id hid)
  fixed := fun id hid => (hk'.fixed id (hk.has id hid)).trans (hk.fixed id hid)

variable (hk : KeepsShapes h h') (hid : h.HasShape id)
include hk hid

theorem back : (h'.shape id).back = (h.shape id).back :=
  congrArg (·.back) (hk.fixed id hid)

theorem family : (h'.shape id).family = (h.shape id).family :=
  congrArg (·.family) (hk.fixed id hid)

theorem keys : (h'.shape id).keys = (h.shape id).keys :=
  congrArg (·.keys) (hk.fixed id hid)

end KeepsShapes

theorem KeepsShapes.shaped (hk : KeepsShapes h h') {o : HeapObject} (ho : h.Shaped o) : h'.Shaped o where
  shape := hk.has _ ho.shape
  family := (hk.family ho.shape).trans ho.family
  slots := ho.slots.trans (congrArg Array.size (hk.keys ho.shape)).symm

/-- A child stays one if there is no other transition for its key. -/
theorem KeepsShapes.isChild (hk : KeepsShapes h h') (hparent : h.HasShape parent) (hchild : h.HasShape child)
    (hc : h.IsChild parent key child)
    (htransitions : (h'.shape parent).transitions.filter (fun t => t.1 == key)
      = (h.shape parent).transitions.filter (fun t => t.1 == key))
    : h'.IsChild parent key child where
  back := (hk.back hchild).trans hc.back
  index_lt := hc.index_lt
  family := by rw [hk.family hchild, hk.family hparent, hc.family]
  keys := by rw [hk.keys hchild, hk.keys hparent, hc.keys]
  new := by
    rw [hk.keys hparent]
    exact hc.new
  transition := htransitions.trans hc.transition

/-! The new root of a family. -/

theorem keepsShapes_addShape (h : Heap) (family : ShapeFamily) (keys : Array String) (back : Option ShapeId)
    : KeepsShapes h (h.addShape family keys back) where
  has := fun _ hid => hasShape_addShape h family keys back hid
  fixed := fun _ hid => congrArg Shape.fixed (shape_addShape_old h family keys back hid)

theorem hasShape_addShape_cases {family : ShapeFamily} {keys : Array String} {back : Option ShapeId}
    (hid : (h.addShape family keys back).HasShape id)
    : h.HasShape id ∨ id = ⟨h.shapes.size⟩ := by
  unfold HasShape addShape at hid
  rw [Array.size_push] at hid
  rcases Nat.lt_succ_iff_lt_or_eq.1 hid with hlt | heq
  . exact Or.inl hlt
  . right
    cases id
    exact congrArg ShapeId.mk heq

theorem IsChild.hasShape (hc : h.IsChild parent key child) (hchild : h.HasShape child)
    : h.HasShape parent :=
  Nat.lt_trans hc.index_lt hchild

section Root

variable {family : ShapeFamily}

theorem keepsShapes_addRootShape (h : Heap) (family : ShapeFamily) : KeepsShapes h (h.addRootShape family) :=
  have hk := keepsShapes_addShape h family #[] none
  ⟨hk.has, hk.fixed⟩

theorem shape_addRootShape_old (hid : h.HasShape id) : (h.addRootShape family).shape id = h.shape id :=
  shape_addShape_old h family #[] none hid

theorem shape_addRootShape_new
    : (h.addRootShape family).shape ⟨h.shapes.size⟩ = ⟨h.nextStableId, family, #[], none, #[]⟩ :=
  shape_addShape_new h family #[] none

theorem lookup_addRootShape (h : Heap) (family family' : ShapeFamily)
    : (h.addRootShape family).rootShapes.lookup family'
        =
      (h.rootShapes.lookup family').or (if family' = family then some ⟨h.shapes.size⟩ else none) := by
  change (h.rootShapes ++ [(family, (⟨h.shapes.size⟩ : ShapeId))]).lookup family' = _
  rw [List.lookup_append]
  by_cases hsame : family' = family
  . simp [hsame]
  . have hne : (family' == family) = false := by simpa using hsame
    simp [List.lookup_cons, hsame, hne]

theorem IsChild.addRootShape (hc : h.IsChild parent key child) (hchild : h.HasShape child)
    : (h.addRootShape family).IsChild parent key child := by
  have hparent := hc.hasShape hchild
  apply (keepsShapes_addRootShape h family).isChild hparent hchild hc
  rw [shape_addRootShape_old hparent]

theorem Tree.addRootShape (ht : h.Tree) (hnew : h.rootShapes.lookup family = none)
    : (h.addRootShape family).Tree := by
  have hk := keepsShapes_addRootShape h family
  have hcases : ∀ {id}, (h.addRootShape family).HasShape id → h.HasShape id ∨ id = ⟨h.shapes.size⟩ :=
    hasShape_addShape_cases
  refine ⟨fun o ho => hk.shaped (ht.objects o ho), ?_, ?_, ?_, ?_⟩
  . intro id hid hback
    rcases hcases hid with hid | rfl
    . rw [shape_addRootShape_old hid] at hback ⊢
      obtain ⟨hkeys, hfound⟩ := ht.root id hid hback
      rw [lookup_addRootShape, hfound]
      exact ⟨hkeys, rfl⟩
    . rw [shape_addRootShape_new, lookup_addRootShape, hnew]
      simp
  . intro family' id hfound
    rw [lookup_addRootShape] at hfound
    rcases Option.or_eq_some_iff.1 hfound with hfound | ⟨-, hfound⟩
    . obtain ⟨hid, hback, hfamily⟩ := ht.rootShapes family' id hfound
      rw [shape_addRootShape_old hid]
      exact ⟨hk.has id hid, hback, hfamily⟩
    . obtain ⟨rfl, hid⟩ := (Option.ite_none_right_eq_some).1 hfound
      cases hid
      rw [shape_addRootShape_new]
      exact ⟨hasShape_addShape_new h family' #[] none, rfl, rfl⟩
  . intro id parent hid hback
    rcases hcases hid with hid | rfl
    . rw [shape_addRootShape_old hid] at hback
      obtain ⟨key, hc⟩ := ht.child id parent hid hback
      exact ⟨key, hc.addRootShape hid⟩
    . rw [shape_addRootShape_new] at hback
      cases hback
  . intro id hid t hmem
    rcases hcases hid with hid | rfl
    . rw [shape_addRootShape_old hid] at hmem
      obtain ⟨htarget, hc⟩ := ht.transition id hid t hmem
      exact ⟨hk.has _ htarget, hc.addRootShape htarget⟩
    . rw [shape_addRootShape_new] at hmem
      simp at hmem

end Root

theorem shape_modifyShape_of_ne (hne : id ≠ source) (f : Shape → Shape)
    : (h.modifyShape source f).shape id = h.shape id := by
  have hindex : source.index ≠ id.index := by
    intro hindex
    apply hne
    cases id
    exact congrArg ShapeId.mk hindex.symm
  unfold shape modifyShape
  rw [Array.getD_eq_getD_getElem?, Array.getElem?_modify, if_neg hindex, ← Array.getD_eq_getD_getElem?]

section Transition

theorem hasShape_addTransition_new (h : Heap) (source : ShapeId) (key : String)
    : (h.addTransition source key).HasShape ⟨h.shapes.size⟩ := by
  unfold HasShape addTransition modifyShape
  rw [Array.size_modify]
  exact hasShape_addShape_new h _ _ _

theorem shape_addTransition_of_ne (hid : h.HasShape id) (hne : id ≠ source)
    : (h.addTransition source key).shape id = h.shape id := by
  unfold addTransition
  rw [shape_modifyShape_of_ne hne, shape_addShape_old h _ _ _ hid]

variable (hsource : h.HasShape source)
include hsource

theorem shape_addTransition_new (key : String)
    : (h.addTransition source key).shape ⟨h.shapes.size⟩
        =
      ⟨h.nextStableId, (h.shape source).family, (h.shape source).keys.push key, some source, #[]⟩ := by
  have hne : (⟨h.shapes.size⟩ : ShapeId) ≠ source := by
    rintro rfl
    exact Nat.lt_irrefl _ hsource
  unfold addTransition
  rw [shape_modifyShape_of_ne hne, shape_addShape_new]

theorem keepsShapes_addTransition (key : String) : KeepsShapes h (h.addTransition source key) where
  has := fun id hid => ((grows_addTransition h source key).shapes id hid).1
  fixed := by
    intro id hid
    by_cases heq : id = source
    . rw [heq, shape_addTransition hsource]
      rfl
    . rw [shape_addTransition_of_ne hid heq]

/-- A shape that had a transition for another key still has no other one for it. -/
theorem IsChild.addTransition (hc : h.IsChild parent key child) (hchild : h.HasShape child)
    {key' : String} (hnew : ∀ t ∈ (h.shape source).transitions, t.1 ≠ key')
    : (h.addTransition source key').IsChild parent key child := by
  have hparent := hc.hasShape hchild
  apply (keepsShapes_addTransition hsource key').isChild hparent hchild hc
  by_cases heq : parent = source
  . subst heq
    have hmem : (key, child) ∈ (h.shape parent).transitions := by
      have hfilter : (key, child) ∈ (h.shape parent).transitions.filter (fun t => t.1 == key) := by
        rw [hc.transition]
        exact Array.mem_singleton_self _
      exact (Array.mem_filter.1 hfilter).1
    have hne : (key' == key) = false := by simpa using (hnew _ hmem).symm
    rw [shape_addTransition hsource, Array.filter_push]
    simp [hne]
  . rw [shape_addTransition_of_ne hparent heq]

theorem isChild_addTransition (hkey : key ∉ (h.shape source).keys)
    (hnew : ∀ t ∈ (h.shape source).transitions, t.1 ≠ key)
    : (h.addTransition source key).IsChild source key ⟨h.shapes.size⟩ := by
  have hk := keepsShapes_addTransition hsource key
  refine ⟨?_, hsource, ?_, ?_, ?_, ?_⟩
  . rw [shape_addTransition_new hsource]
  . rw [shape_addTransition_new hsource, hk.family hsource]
  . rw [shape_addTransition_new hsource, hk.keys hsource]
  . rwa [hk.keys hsource]
  . have hnone : (h.shape source).transitions.filter (fun t => t.1 == key) = #[] := by
      rw [Array.filter_eq_empty_iff]
      intro t ht
      simpa using hnew t ht
    rw [shape_addTransition hsource, Array.filter_push]
    simp [hnone]

theorem Tree.addTransition (ht : h.Tree) (hkey : key ∉ (h.shape source).keys)
    (hnew : ∀ t ∈ (h.shape source).transitions, t.1 ≠ key)
    : (h.addTransition source key).Tree := by
  have hk := keepsShapes_addTransition hsource key
  have hcases : ∀ {id}, (h.addTransition source key).HasShape id →
      h.HasShape id ∨ id = ⟨h.shapes.size⟩ := by
    intro id hid
    unfold HasShape Heap.addTransition modifyShape at hid
    rw [Array.size_modify] at hid
    exact hasShape_addShape_cases hid
  have hchild := isChild_addTransition hsource hkey hnew
  have hhas := hasShape_addTransition_new h source key
  refine ⟨fun o ho => hk.shaped (ht.objects o ho), ?_, ?_, ?_, ?_⟩
  . intro id hid hback
    rcases hcases hid with hid | rfl
    . rw [hk.back hid] at hback
      rw [hk.keys hid, hk.family hid]
      exact ht.root id hid hback
    . rw [hchild.back] at hback
      cases hback
  . intro family id hfound
    obtain ⟨hid, hback, hfamily⟩ := ht.rootShapes family id hfound
    exact ⟨hk.has id hid, (hk.back hid).trans hback, (hk.family hid).trans hfamily⟩
  . intro id parent hid hback
    rcases hcases hid with hid | rfl
    . rw [hk.back hid] at hback
      obtain ⟨key', hc⟩ := ht.child id parent hid hback
      exact ⟨key', hc.addTransition hsource hid hnew⟩
    . rw [hchild.back] at hback
      cases hback
      exact ⟨key, hchild⟩
  . intro id hid t hmem
    rcases hcases hid with hid | rfl
    . by_cases heq : id = source
      . rw [heq, shape_addTransition hsource, Array.mem_push] at hmem
        rw [heq]
        rcases hmem with hmem | rfl
        . obtain ⟨htarget, hc⟩ := ht.transition source hsource t hmem
          exact ⟨hk.has _ htarget, hc.addTransition hsource htarget hnew⟩
        . exact ⟨hhas, hchild⟩
      . rw [shape_addTransition_of_ne hid heq] at hmem
        obtain ⟨htarget, hc⟩ := ht.transition id hid t hmem
        exact ⟨hk.has _ htarget, hc.addTransition hsource htarget hnew⟩
    . rw [shape_addTransition_new hsource] at hmem
      simp at hmem

end Transition

/-- Changes of the objects leave the tree as it is, if every object has a shape as before. -/
theorem Tree.of_shapes_eq (ht : h.Tree) (hshapes : h'.shapes = h.shapes)
    (hroots : h'.rootShapes = h.rootShapes) (hobjects : ∀ o ∈ h'.objects, h.Shaped o)
    : h'.Tree := by
  have hshape : ∀ id, h'.shape id = h.shape id := by
    intro id
    unfold shape
    rw [hshapes]
  have hhas : ∀ id, h'.HasShape id ↔ h.HasShape id := by
    intro id
    unfold HasShape
    rw [hshapes]
  have hk : KeepsShapes h h' := ⟨fun id hid => (hhas id).2 hid, fun id _ => congrArg Shape.fixed (hshape id)⟩
  have hchild : ∀ {parent key child}, h.HasShape child → h.IsChild parent key child →
      h'.IsChild parent key child := by
    intro parent key child hid hc
    exact hk.isChild (hc.hasShape hid) hid hc (by rw [hshape])
  refine ⟨fun o ho => hk.shaped (hobjects o ho), ?_, ?_, ?_, ?_⟩
  . intro id hid hback
    rw [hshape] at hback ⊢
    rw [hroots]
    exact ht.root id ((hhas id).1 hid) hback
  . intro family id hfound
    rw [hroots] at hfound
    rw [hshape, hhas]
    exact ht.rootShapes family id hfound
  . intro id parent hid hback
    rw [hshape] at hback
    rw [hhas] at hid
    obtain ⟨key, hc⟩ := ht.child id parent hid hback
    exact ⟨key, hchild hid hc⟩
  . intro id hid t hmem
    rw [hshape] at hmem
    rw [hhas] at hid
    obtain ⟨htarget, hc⟩ := ht.transition id hid t hmem
    exact ⟨hk.has _ htarget, hchild htarget hc⟩

theorem Tree.charged (ht : h.Tree) (bytes : Nat) : (h.charged bytes).Tree :=
  ht.of_shapes_eq rfl rfl ht.objects

theorem Tree.addObject (ht : h.Tree) {content : Content} {shape : ShapeId}
    (hshape : h.rootShapes.lookup content.family = some shape)
    : (h.addObject content shape).Tree := by
  have hshapes : (h.addObject content shape).shapes = h.shapes := rfl
  refine ht.of_shapes_eq hshapes rfl ?_
  intro o ho
  unfold Heap.addObject at ho
  rw [Array.mem_push] at ho
  rcases ho with ho | rfl
  . exact ht.objects o ho
  . -- a root has no keys, and a new object has no slots
    obtain ⟨hid, hback, hfamily⟩ := ht.rootShapes _ _ hshape
    refine ⟨hid, hfamily, ?_⟩
    rw [(ht.root shape hid hback).1]
    rfl

theorem Tree.modifyObject (ht : h.Tree) {id : ObjectId} {f : HeapObject → HeapObject}
    (hf : ∀ o, h.objects[id.index]? = some o → h.Shaped o → h.Shaped (f o))
    : (h.modifyObject id f).Tree := by
  have hshapes : (h.modifyObject id f).shapes = h.shapes := rfl
  refine ht.of_shapes_eq hshapes rfl ?_
  intro o ho
  rcases Array.eq_or_eq_of_mem_modify ho with ho | ⟨o₀, ho₀, rfl⟩
  . exact ht.objects o ho
  . exact hf o₀ ho₀ (ht.objects o₀ (Array.mem_of_getElem? ho₀))

theorem Tree.putSlot (ht : h.Tree) (id : ObjectId) (slot : Nat) (value : Value)
    : (h.putSlot id slot value).Tree := by
  apply ht.modifyObject
  intro o _ ho
  refine ⟨ho.shape, ho.family, ?_⟩
  rw [Array.size_setIfInBounds]
  exact ho.slots

theorem Tree.modifyContent (ht : h.Tree) (id : ObjectId) {f : Content → Content}
    (hf : ∀ c, (f c).family = c.family)
    : (h.modifyContent id f).Tree := by
  apply ht.modifyObject
  intro o _ ho
  exact ⟨ho.shape, ho.family.trans (hf o.content).symm, ho.slots⟩

theorem Tree.addSlot (ht : h.Tree) {id : ObjectId} {shape : ShapeId} (hid : h.HasShape shape)
    (hc : h.IsChild (h.object id).shape key shape) (value : Value)
    : (h.addSlot id shape value).Tree := by
  apply ht.modifyObject
  intro o hobject ho
  have heq : h.object id = o := (object_of_getElem? hobject).2
  rw [heq] at hc
  refine ⟨hid, hc.family.trans ho.family, ?_⟩
  rw [hc.keys, Array.size_push, Array.size_push, ho.slots]

end Heap
end ScriptHost
