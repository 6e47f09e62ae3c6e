import ScriptHost.Proofs.Heap.Tree

/-!
This module contains the trees of the shapes under the operations of a heap. Two objects share a shape
exactly if they are of one family and have the same keys in the same order, whatever operations have
succeeded or failed before.
-/

namespace ScriptHost.Heap

variable {h h' : Heap} {op : Op} {key : String}

theorem mapElements_family (f : Array Value → Array Value) (c : Content)
    : (c.mapElements f).family = c.family := by
  cases c <;> rfl

theorem mapBindings_family (f : Array Binding → Array Binding) (c : Content)
    : (c.mapBindings f).family = c.family := by
  cases c <;> rfl

/-- The shapes of a heap still form trees, and those that were there are what they were. -/
structure GrowsTo (h h' : Heap) : Prop where
  tree : h'.Tree
  keeps : KeepsShapes h h'

theorem GrowsTo.trans {h₁ : Heap} (he : h.GrowsTo h₁) (he' : h₁.GrowsTo h') : h.GrowsTo h' :=
  ⟨he'.tree, he.keeps.trans he'.keeps⟩

/-- Changes that do not touch the shapes. -/
theorem GrowsTo.of_shapes_eq {h₁ : Heap} (he : h.GrowsTo h₁) (htree : h'.Tree)
    (hshapes : h'.shapes = h₁.shapes)
    : h.GrowsTo h' := by
  refine ⟨htree, he.keeps.trans ⟨?_, ?_⟩⟩
  . intro id hid
    unfold HasShape
    rwa [hshapes]
  . intro id _
    unfold shape
    rw [hshapes]

theorem Tree.growsTo_self (ht : h.Tree) : h.GrowsTo h :=
  ⟨ht, keepsShapes_refl h⟩

theorem Tree.growsTo_charged (ht : h.Tree) (bytes : Nat) : h.GrowsTo (h.charged bytes) :=
  ht.growsTo_self.of_shapes_eq (ht.charged bytes) rfl

theorem Tree.growsTo_rootShape (ht : h.Tree) {family : ShapeFamily} {shape : ShapeId}
    (hroot : exec (rootShape family) h = (.ok shape, h'))
    : h.GrowsTo h' ∧ h'.rootShapes.lookup family = some shape := by
  refine ⟨?_, (rootShape_steps hroot).2⟩
  rcases rootShape_cases family h with ⟨shape', -, hexec⟩ | ⟨-, -, hexec⟩ | ⟨hnew, -, hexec⟩
  . rw [hroot] at hexec
    cases hexec
    exact ht.growsTo_self
  . rw [hroot] at hexec
    cases hexec
  . rw [hroot] at hexec
    cases hexec
    have he := ht.growsTo_charged shapeSize
    exact ⟨he.tree.addRootShape hnew, he.keeps.trans (keepsShapes_addRootShape _ family)⟩

/-- A transition for a key that the source does not have leads to its child with that key. -/
theorem Tree.growsTo_transition (ht : h.Tree) {source shape : ShapeId} (hsource : h.HasShape source)
    (hkey : key ∉ (h.shape source).keys)
    (htransition : exec (Heap.transition source key) h = (.ok shape, h'))
    : h.GrowsTo h' ∧ h'.HasShape shape ∧ h'.IsChild source key shape := by
  rcases transition_cases source key h with ⟨t, hfind, hexec⟩ | ⟨-, -, hexec⟩ | ⟨hfind, -, hexec⟩
  . rw [htransition] at hexec
    cases hexec
    have hsame : t.1 = key := by simpa using Array.find?_some hfind
    have hchild := ht.transition source hsource t (Array.mem_of_find?_eq_some hfind)
    rw [hsame] at hchild
    exact ⟨ht.growsTo_self, hchild⟩
  . rw [htransition] at hexec
    cases hexec
  . rw [htransition] at hexec
    cases hexec
    have hnew : ∀ t ∈ (h.shape source).transitions, t.1 ≠ key := by simpa using hfind
    have hsource' : (h.charged shapeSize).HasShape source := hsource
    have he := ht.growsTo_charged shapeSize
    have hk := keepsShapes_addTransition hsource' key
    exact ⟨⟨he.tree.addTransition hsource' hkey hnew, he.keeps.trans hk⟩,
      hasShape_addTransition_new _ source key, isChild_addTransition hsource' hkey hnew⟩

theorem Tree.growsTo_allocate (ht : h.Tree) (content : Content)
    : h.GrowsTo (exec (allocate content) h).2 := by
  have he := ht.growsTo_charged content.size
  rcases allocate_cases content h with ⟨-, hexec⟩ | ⟨e, -, -, hexec⟩ | ⟨shape, h₁, -, hroot, hexec⟩
  . rw [hexec]
    exact ht.growsTo_self
  . rw [hexec]
    exact he
  . rw [hexec]
    obtain ⟨he₁, hlookup⟩ := he.tree.growsTo_rootShape hroot
    exact (he.trans he₁).of_shapes_eq (he₁.tree.addObject hlookup) rfl

theorem Tree.growsTo_setProperty (ht : h.Tree) {id : ObjectId} (hid : h.Has id) (key : String)
    (value : Value)
    : h.GrowsTo (exec (setProperty id key value) h).2 := by
  have he := ht.growsTo_charged pointerSize
  rcases setProperty_cases id key value h with ⟨slot, -, hexec⟩ | ⟨-, -, hexec⟩ |
    ⟨e, -, -, -, hexec⟩ | ⟨shape, h₁, hslot, -, htransition, hexec⟩
  . rw [hexec]
    exact ht.growsTo_self.of_shapes_eq (ht.putSlot id slot value) rfl
  . rw [hexec]
    exact ht.growsTo_self
  . rw [hexec]
    exact he
  . rw [hexec]
    have hsource : h.HasShape (h.object id).shape := (ht.objects _ (object_mem hid)).shape
    have hkey : key ∉ (h.shape (h.object id).shape).keys := by
      change key ∉ h.keys id
      rw [← hasProperty_iff_mem_keys]
      unfold hasProperty
      rw [hslot]
      exact Bool.false_ne_true
    have hobjects := objects_transition htransition
    obtain ⟨he₁, hshape, hchild⟩ := he.tree.growsTo_transition hsource hkey htransition
    have hobject : h₁.object id = h.object id := by
      unfold object
      rw [hobjects]
      rfl
    rw [← hobject] at hchild
    exact (he.trans he₁).of_shapes_eq (he₁.tree.addSlot hshape hchild value) rfl

theorem Tree.growsTo_setElement (ht : h.Tree) (id : ObjectId) (index : Nat) (value : Value)
    : h.GrowsTo (exec (setElement id index value) h).2 := by
  rcases setElement_cases id index value h with ⟨-, hexec⟩ | ⟨size, -, -, hexec⟩ |
    ⟨size, e, -, -, hexec⟩ | ⟨size, -, -, -, hexec⟩
  . rw [hexec]
    exact ht.growsTo_self
  . rw [hexec]
    exact ht.growsTo_self.of_shapes_eq (ht.modifyContent id (mapElements_family _)) rfl
  . rw [hexec]
    exact ht.growsTo_self
  . rw [hexec]
    have he := ht.growsTo_charged (growth size index)
    exact he.of_shapes_eq (he.tree.modifyContent id (mapElements_family _)) rfl

theorem Tree.growsTo_declare (ht : h.Tree) (id : ObjectId) (name : String) (value : Value)
    (mutable : Bool)
    : h.GrowsTo (exec (declare id name value mutable) h).2 := by
  rcases declare_cases id name value mutable h with ⟨i, -, hexec⟩ | ⟨-, -, hexec⟩ | ⟨-, -, hexec⟩
  . rw [hexec]
    exact ht.growsTo_self.of_shapes_eq (ht.modifyContent id (mapBindings_family _)) rfl
  . rw [hexec]
    exact ht.growsTo_self
  . rw [hexec]
    have he := ht.growsTo_charged pointerSize
    exact he.of_shapes_eq (he.tree.modifyContent id (mapBindings_family _)) rfl

theorem Tree.growsTo_apply (ht : h.Tree) (hop : op.Targets h) : h.GrowsTo (op.apply h) := by
  cases op with
  | allocate content => exact ht.growsTo_allocate content
  | setProperty id key value => exact ht.growsTo_setProperty hop key value
  | setElement id index value => exact ht.growsTo_setElement id index value
  | declare id name value mutable => exact ht.growsTo_declare id name value mutable

theorem Tree.growsTo_runs (ht : h.Tree) (hr : Runs Op.Targets h h') : h.GrowsTo h' := by
  induction hr with
  | refl => exact ht.growsTo_self
  | tail _ hop ih =>
    obtain ⟨op, htargets, rfl⟩ := hop
    exact ih.trans (ih.tree.growsTo_apply htargets)

/-! What the shape of an object tells of it. -/

theorem Tree.nodup_keys (ht : h.Tree) : ∀ id, h.HasShape id → (h.shape id).keys.toList.Nodup := by
  -- a parent comes before its children
  intro ⟨i⟩
  induction i using Nat.strongRecOn with | _ i ih =>
  intro hid
  cases hback : (h.shape ⟨i⟩).back with
  | none =>
    rw [(ht.root _ hid hback).1]
    exact List.nodup_nil
  | some parent =>
    obtain ⟨key, hc⟩ := ht.child _ parent hid hback
    have hparent := ih parent.index hc.index_lt (hc.hasShape hid)
    have hnew : key ∉ (h.shape parent).keys.toList := hc.new ∘ Array.mem_def.2
    rw [hc.keys, Array.toList_push, List.nodup_append]
    refine ⟨hparent, List.pairwise_singleton _ key, ?_⟩
    rintro k hk k' hk' rfl
    rw [List.mem_singleton.1 hk'] at hk
    exact hnew hk

theorem IsChild.eq {parent a b : ShapeId} (ha : h.IsChild parent key a) (hb : h.IsChild parent key b)
    : a = b := by
  have htransition := ha.transition.symm.trans hb.transition
  simpa using htransition

/-- A shape is given by its family and its keys. -/
theorem Tree.shape_inj (ht : h.Tree)
    : ∀ a b, h.HasShape a → h.HasShape b → (h.shape a).family = (h.shape b).family →
        (h.shape a).keys = (h.shape b).keys → a = b := by
  intro ⟨i⟩
  induction i using Nat.strongRecOn with | _ i ih =>
  intro b ha hb hfamily hkeys
  cases hbacka : (h.shape ⟨i⟩).back with
  | none =>
    obtain ⟨hempty, hroota⟩ := ht.root _ ha hbacka
    cases hbackb : (h.shape b).back with
    | none =>
      obtain ⟨-, hrootb⟩ := ht.root b hb hbackb
      rw [hfamily, hrootb] at hroota
      exact (Option.some.inj hroota).symm
    | some parent =>
      obtain ⟨key, hc⟩ := ht.child b parent hb hbackb
      rw [hempty, hc.keys] at hkeys
      exact absurd hkeys.symm Array.push_ne_empty
  | some parent =>
    obtain ⟨key, hca⟩ := ht.child _ parent ha hbacka
    cases hbackb : (h.shape b).back with
    | none =>
      have hempty := (ht.root b hb hbackb).1
      rw [hempty, hca.keys] at hkeys
      exact absurd hkeys Array.push_ne_empty
    | some parent' =>
      obtain ⟨key', hcb⟩ := ht.child b parent' hb hbackb
      rw [hca.keys, hcb.keys] at hkeys
      obtain ⟨rfl, hparentkeys⟩ := Array.push_eq_push.1 hkeys
      rw [hca.family, hcb.family] at hfamily
      have hparents : parent = parent' :=
        ih parent.index hca.index_lt parent' (hca.hasShape ha) (hcb.hasShape hb) hfamily
          hparentkeys
      rw [← hparents] at hcb
      exact hca.eq hcb

/-- The shapes of a heap form a tree for each family, whose roots have no keys and whose edges add one key
each. Objects share a shape if they have the same keys, and a shape stays what it is. -/
theorem shapes_canonical {limit : Nat} (hr : Runs Op.Targets (empty limit) h)
    : (∀ a b, h.Has a → h.Has b →
        ((h.object a).shape = (h.object b).shape
          ↔ (h.content a).family = (h.content b).family ∧ h.keys a = h.keys b)) ∧
      (∀ a, h.Has a → (h.keys a).toList.Nodup ∧ (h.object a).slots.size = (h.keys a).size) ∧
      (∀ a b, h.HasShape a → h.HasShape b → (h.shape a).back = none → (h.shape b).back = none →
        (h.shape a).family = (h.shape b).family → a = b) ∧
      (∀ a, h.HasShape a → (h.shape a).back = none → (h.shape a).keys = #[]) ∧
      (∀ a parent, h.HasShape a → (h.shape a).back = some parent → ∃ key, h.IsChild parent key a) ∧
      (∀ h', Runs Op.Targets h h' → ∀ a, h.HasShape a →
        h'.HasShape a ∧ (h'.shape a).fixed = (h.shape a).fixed) := by
  have ht : h.Tree := ((tree_empty limit).growsTo_runs hr).tree
  have hshaped : ∀ {a}, h.Has a → h.Shaped (h.object a) := fun ha => ht.objects _ (object_mem ha)
  refine ⟨?_, ?_, ?_, ?_, ?_, ?_⟩
  . intro a b ha hb
    unfold content keys shapeOf
    rw [← (hshaped ha).family, ← (hshaped hb).family]
    constructor
    . intro hshape
      rw [hshape]
      exact ⟨rfl, rfl⟩
    . rintro ⟨hfamily, hkeys⟩
      exact ht.shape_inj _ _ (hshaped ha).shape (hshaped hb).shape hfamily hkeys
  . intro a ha
    exact ⟨ht.nodup_keys _ (hshaped ha).shape, (hshaped ha).slots⟩
  . intro a b ha hb hbacka hbackb hfamily
    obtain ⟨hkeysa, -⟩ := ht.root a ha hbacka
    obtain ⟨hkeysb, -⟩ := ht.root b hb hbackb
    exact ht.shape_inj a b ha hb hfamily (hkeysa.trans hkeysb.symm)
  . intro a ha hback
    exact (ht.root a ha hback).1
  . exact ht.child
  . intro h' hr' a ha
    have hk := (ht.growsTo_runs hr').keeps
    exact ⟨hk.has a ha, hk.fixed a ha⟩

/-- Two objects with the key `x`. There was no room for the shape that `y` would have taken in between. -/
def pairHeap : Heap :=
  let h₁ := Op.apply (empty 250) (.allocate .ordinary)
  let h₂ := Op.apply h₁ (.allocate .ordinary)
  let h₃ := Op.apply h₂ (.setProperty ⟨0⟩ "x" .null)
  let h₄ := Op.apply h₃ (.setProperty ⟨0⟩ "y" .null)
  Op.apply h₄ (.setProperty ⟨1⟩ "x" .undefined)

theorem runs_pairHeap : Runs Op.Targets (empty 250) pairHeap := by
  have h₁ : Runs Op.Targets (empty 250) (Op.apply (empty 250) (.allocate .ordinary)) :=
    .single ⟨.allocate .ordinary, by decide, rfl⟩
  have h₂ := h₁.tail ⟨.allocate .ordinary, by decide, rfl⟩
  have h₃ := h₂.tail ⟨.setProperty ⟨0⟩ "x" .null, by decide, rfl⟩
  have h₄ := h₃.tail ⟨.setProperty ⟨0⟩ "y" .null, by decide +kernel, rfl⟩
  exact h₄.tail ⟨.setProperty ⟨1⟩ "x" .undefined, by decide +kernel, rfl⟩

theorem shapes_canonical_pair
    : Runs Op.Targets (empty 250) pairHeap
      ∧ (pairHeap.object ⟨0⟩).shape = (pairHeap.object ⟨1⟩).shape := by
  have hhas : pairHeap.Has ⟨0⟩ ∧ pairHeap.Has ⟨1⟩ := by decide +kernel
  have hsame : (pairHeap.content ⟨0⟩).family = (pairHeap.content ⟨1⟩).family
      ∧ pairHeap.keys ⟨0⟩ = pairHeap.keys ⟨1⟩ := by
    decide +kernel
  exact ⟨runs_pairHeap, ((shapes_canonical runs_pairHeap).1 ⟨0⟩ ⟨1⟩ hhas.1 hhas.2).2 hsame⟩

end ScriptHost.Heap
