import ScriptHost.Proofs.Heap.Ensures
import ScriptHost.Proofs.Heap.Linked

/-!
This module contains that the closures of a heap are those that were allocated. No operation changes the
function of a closure or its script.
-/

namespace ScriptHost.Heap

variable {α : Type} {C : Function → ScriptId → Prop} {h h' : Heap}

def Closures (C : Function → ScriptId → Prop) (h : Heap) : Prop :=
  ∀ o ∈ h.objects, ∀ f scope script, o.content = .closure f scope script → C f script

theorem Closures.of_content (hc : h.Closures C) {id : ObjectId} {f : Function} {scope : Option ObjectId}
    {script : ScriptId} (hcontent : h.content id = .closure f scope script)
    : C f script :=
  hc _ (object_mem (has_of_content hcontent nofun)) f scope script hcontent

theorem closures_empty (limit : Nat) : (empty limit).Closures C := by
  intro o ho
  simp [empty] at ho

theorem Closures.of_objects_eq (hc : h.Closures C) (hobjects : h'.objects = h.objects)
    : h'.Closures C := by
  unfold Closures
  rw [hobjects]
  exact hc

theorem Closures.addObject (hc : h.Closures C) {content : Content} {shape : ShapeId}
    (hcontent : ∀ f scope script, content = .closure f scope script → C f script)
    : (h.addObject content shape).Closures C := by
  intro o ho
  unfold Heap.addObject at ho
  rw [Array.mem_push] at ho
  rcases ho with ho | rfl
  . exact hc o ho
  . exact hcontent

theorem Closures.modifyObject (hc : h.Closures C) (id : ObjectId) {f : HeapObject → HeapObject}
    (hf : ∀ o g scope script, (f o).content = .closure g scope script →
      o.content = .closure g scope script)
    : (h.modifyObject id f).Closures C := by
  intro o ho g scope script hclosure
  rcases Array.eq_or_eq_of_mem_modify ho with ho | ⟨o₀, ho₀, rfl⟩
  . exact hc o ho g scope script hclosure
  . exact hc o₀ (Array.mem_of_getElem? ho₀) g scope script (hf o₀ g scope script hclosure)

theorem Closures.mapElements (hc : h.Closures C) (id : ObjectId) (f : Array Value → Array Value)
    : (h.modifyContent id (.mapElements f)).Closures C := by
  apply hc.modifyObject
  intro o g scope script hclosure
  cases hcontent : o.content <;>
    simp [hcontent, Content.mapElements] at hclosure ⊢
  exact hclosure

theorem Closures.mapBindings (hc : h.Closures C) (id : ObjectId) (f : Array Binding → Array Binding)
    : (h.modifyContent id (.mapBindings f)).Closures C := by
  apply hc.modifyObject
  intro o g scope script hclosure
  cases hcontent : o.content <;>
    simp [hcontent, Content.mapBindings] at hclosure ⊢
  exact hclosure

/-- The closures that an operation makes have a property. -/
def Keeps (C : Function → ScriptId → Prop) (op : HeapM α) : Prop :=
  ∀ h : Heap, h.Closures C → (exec op h).2.Closures C

theorem objects_rootShape {family : ShapeFamily} {r : Except OutOfMemory ShapeId}
    (hroot : exec (rootShape family) h = (r, h'))
    : h'.objects = h.objects := by
  rcases rootShape_cases family h with ⟨shape, -, hexec⟩ | ⟨-, -, hexec⟩ | ⟨-, -, hexec⟩ <;>
  . rw [hroot] at hexec
    cases hexec
    rfl

theorem objects_transition {source : ShapeId} {key : String} {r : Except OutOfMemory ShapeId}
    (htransition : exec (transition source key) h = (r, h'))
    : h'.objects = h.objects := by
  rcases transition_cases source key h with ⟨t, -, hexec⟩ | ⟨-, -, hexec⟩ | ⟨-, -, hexec⟩ <;>
  . rw [htransition] at hexec
    cases hexec
    rfl

theorem keeps_allocate {content : Content}
    (hcontent : ∀ f scope script, content = .closure f scope script → C f script)
    : Keeps C (allocate content) := by
  intro h hc
  rcases allocate_cases content h with ⟨-, hexec⟩ | ⟨e, -, -, hexec⟩ | ⟨shape, h₁, -, hroot, hexec⟩
  . rw [hexec]
    exact hc
  . rw [hexec]
    exact hc
  . rw [hexec]
    have hobjects := objects_rootShape hroot
    exact (hc.of_objects_eq hobjects).addObject hcontent

theorem keeps_setProperty (id : ObjectId) (key : String) (value : Value)
    : Keeps C (setProperty id key value) := by
  intro h hc
  rcases setProperty_cases id key value h with ⟨slot, -, hexec⟩ | ⟨-, -, hexec⟩ |
    ⟨e, -, -, -, hexec⟩ | ⟨shape, h₁, -, -, htransition, hexec⟩
  . rw [hexec]
    exact hc.modifyObject _ (fun _ _ _ _ hclosure => hclosure)
  . rw [hexec]
    exact hc
  . rw [hexec]
    exact hc
  . rw [hexec]
    have hobjects := objects_transition htransition
    exact (hc.of_objects_eq hobjects).modifyObject _ (fun _ _ _ _ hclosure => hclosure)

theorem keeps_setElement (id : ObjectId) (index : Nat) (value : Value)
    : Keeps C (setElement id index value) := by
  intro h hc
  rcases setElement_cases id index value h with ⟨-, hexec⟩ | ⟨size, -, -, hexec⟩ |
    ⟨size, e, -, -, hexec⟩ | ⟨size, -, -, -, hexec⟩
  . rw [hexec]
    exact hc
  . rw [hexec]
    exact hc.mapElements id _
  . rw [hexec]
    exact hc
  . rw [hexec]
    exact (hc.of_objects_eq rfl).mapElements id _

theorem keeps_declare (id : ObjectId) (name : String) (value : Value) (mutable : Bool)
    : Keeps C (declare id name value mutable) := by
  intro h hc
  rcases declare_cases id name value mutable h with ⟨i, -, hexec⟩ | ⟨-, -, hexec⟩ | ⟨-, -, hexec⟩
  . rw [hexec]
    exact hc.mapBindings id _
  . rw [hexec]
    exact hc
  . rw [hexec]
    exact (hc.of_objects_eq rfl).mapBindings id _

/-- The functions of the host are no closures. -/
theorem keeps_newGlobal : Keeps C newGlobal := by
  intro h hc
  have hallocate : ∀ {content : Content} {h : Heap}, h.Closures C →
      (∀ f scope script, content ≠ .closure f scope script) → (exec (allocate content) h).2.Closures C := by
    intro content h hc hcontent
    apply keeps_allocate _ h hc
    exact fun f scope script heq => absurd heq (hcontent f scope script)
  have hensures : Ensures (Closures C) (fun _ _ => True) newGlobal h := by
    apply ensures_newGlobal (V := fun _ _ => True)
    . exact ⟨hallocate hc (fun _ _ _ => nofun), fun _ _ => trivial⟩
    . intro id h' hc' _ builtin
      exact ⟨hallocate hc' (fun _ _ _ => nofun), fun _ _ => ⟨trivial, trivial⟩⟩
    . exact fun id h' hc' _ key v _ => ⟨keeps_setProperty id key v h' hc', fun _ _ => trivial⟩
    . exact fun _ _ => trivial
  exact hensures.1

end ScriptHost.Heap
