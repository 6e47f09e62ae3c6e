import ScriptHost.Proofs.Heap.Words

/-!
This module contains the accounts of a heap whose limit is a word. The bytes that have been charged are at
least those that the objects and shapes take, and exactly those if no operation has failed. All sums and
products are words.
-/

namespace ScriptHost

/-- The number of values that a content is made with. -/
def Content.entries : Content → Nat
  | array elements => elements.size
  | scope _ bindings => bindings.size
  | _ => 0

namespace Heap

variable {h h' h'' : Heap} {op : Op} {id : ObjectId} {m n : Nat}

/-- The object that an operation is about is there, a scope for a binding, and a content has been made. -/
def Op.Sized (h : Heap) : Op → Prop
  | allocate content => content.entries < 2 ^ 58
  | setProperty id _ _ | setElement id _ _ => h.Has id
  | declare id _ _ _ => h.Has id ∧ (h.content id).isScope = true

/-- The operation is sized, and there is memory for it. -/
def Op.Succeeds (h : Heap) (op : Op) : Prop :=
  op.Sized h ∧ op.result h = .ok ()

theorem Op.Sized.targets (hop : op.Sized h) : op.Targets h := by
  cases op with
  | allocate => trivial
  | setProperty | setElement => exact hop
  | declare => exact hop.1

theorem size_lt_of_entries {content : Content} (hcontent : content.entries < 2 ^ 58)
    : content.size < sizeBound := by
  cases content <;>
    simp only [Content.size, Content.entries, objectHeaderSize, arrayHeaderSize, closureSize, nativeSize,
      scopeHeaderSize, pointerSize, sizeBound, UInt64.size] at * <;>
    omega

/-- All but `unspent` bytes of what has been charged between the heaps are taken. -/
def Settled (unspent : Nat) (h h' : Heap) : Prop :=
  h'.size + unspent + h.used = h.size + h'.used

theorem settled_refl (h : Heap) : Settled 0 h h := rfl

theorem settled_charged (h : Heap) (n : Nat) : Settled n h (h.charged n) := by
  have hsize : (h.charged n).size = h.size := rfl
  have hused : (h.charged n).used = h.used + n := rfl
  unfold Settled
  omega

theorem Settled.trans (hs : Settled m h h') (hs' : Settled n h' h'') : Settled (m + n) h h'' := by
  unfold Settled at *
  omega

theorem Settled.spend (hs : Settled n h h') (hused : h''.used = h'.used) (hsize : h''.size = h'.size + n)
    : Settled 0 h h'' := by
  unfold Settled at *
  omega

theorem List.sum_map_modify {α : Type} {xs : List α} {i : Nat} {x : α} {f : α → α} {g : α → Nat}
    (hx : xs[i]? = some x) (hf : g (f x) = g x + n)
    : ((xs.modify i f).map g).sum = (xs.map g).sum + n := by
  induction xs generalizing i with
  | nil => simp at hx
  | cons y ys ih =>
    cases i with
    | zero =>
      obtain rfl : y = x := by simpa using hx
      simp only [List.modify_zero_cons, List.map_cons, List.sum_cons]
      omega
    | succ i =>
      have hys := ih (i := i) (by simpa using hx)
      simp only [List.modify_succ_cons, List.map_cons, List.sum_cons]
      omega

theorem size_modifyObject (hid : h.Has id) {f : HeapObject → HeapObject}
    (hf : (f (h.object id)).size = (h.object id).size + n)
    : (h.modifyObject id f).size = h.size + n := by
  have hobject : h.objects.toList[id.index]? = some (h.object id) := by
    rw [Array.getElem?_toList]
    exact getElem?_object hid
  have hsum := List.sum_map_modify (g := HeapObject.size) hobject hf
  unfold size modifyObject
  simp only [Array.toList_modify]
  omega

theorem size_modifyContent (hid : h.Has id) {f : Content → Content}
    (hf : (f (h.content id)).size = (h.content id).size + n)
    : (h.modifyContent id f).size = h.size + n := by
  apply size_modifyObject hid
  change (f (h.content id)).size + (h.object id).slots.size * pointerSize
    = (h.content id).size + (h.object id).slots.size * pointerSize + n
  omega

theorem size_putArrayElement (hid : h.Has id) {size : Nat} (hsize : h.arraySize? id = some size)
    (index : Nat) (value : Value)
    : (h.putArrayElement id index value).size
        = h.size + if index < size then 0 else growth size index := by
  obtain ⟨elements, hcontent, rfl⟩ := arraySize?_eq_some hsize
  apply size_modifyContent hid
  rw [hcontent]
  simp only [Content.mapElements, Content.size, size_putElement, growth, pointerSize]
  split <;> omega

theorem settled_rootShape {family : ShapeFamily} {shape : ShapeId}
    (hroot : exec (rootShape family) h = (.ok shape, h'))
    : Settled 0 h h' := by
  rcases rootShape_cases family h with ⟨shape', -, hexec⟩ | ⟨-, -, hexec⟩ | ⟨-, -, hexec⟩
  . rw [hroot] at hexec
    cases hexec
    exact settled_refl h
  . rw [hroot] at hexec
    cases hexec
  . rw [hroot] at hexec
    cases hexec
    exact (settled_charged h shapeSize).spend rfl (size_addRootShape _ family)

theorem settled_transition {source : ShapeId} {key : String} {shape : ShapeId}
    (htransition : exec (transition source key) h = (.ok shape, h'))
    : Settled 0 h h' := by
  rcases transition_cases source key h with ⟨t, -, hexec⟩ | ⟨-, -, hexec⟩ | ⟨-, -, hexec⟩
  . rw [htransition] at hexec
    cases hexec
    exact settled_refl h
  . rw [htransition] at hexec
    cases hexec
  . rw [htransition] at hexec
    cases hexec
    exact (settled_charged h shapeSize).spend rfl (size_addTransition _ source key)

theorem settled_allocate {content : Content} (hallocate : exec (allocate content) h = (.ok id, h'))
    : Settled 0 h h' := by
  rcases allocate_cases content h with ⟨-, hexec⟩ | ⟨e, -, -, hexec⟩ | ⟨shape, h₁, -, hroot, hexec⟩
  . rw [hallocate] at hexec
    cases hexec
  . rw [hallocate] at hexec
    cases hexec
  . rw [hallocate] at hexec
    cases hexec
    have hs := (settled_charged h content.size).trans (settled_rootShape hroot)
    exact hs.spend rfl (size_addObject _ content shape)

theorem settled_setProperty (hid : h.Has id) {key : String} {value : Value}
    (hset : exec (setProperty id key value) h = (.ok (), h'))
    : Settled 0 h h' := by
  rcases setProperty_cases id key value h with ⟨slot, -, hexec⟩ | ⟨-, -, hexec⟩ |
    ⟨e, -, -, -, hexec⟩ | ⟨shape, h₁, -, -, htransition, hexec⟩
  . rw [hset] at hexec
    cases hexec
    refine (settled_refl h).spend rfl (size_modifyObject hid ?_)
    simp [HeapObject.size]
  . rw [hset] at hexec
    cases hexec
  . rw [hset] at hexec
    cases hexec
  . rw [hset] at hexec
    cases hexec
    have hid₁ : h₁.Has id := by
      unfold Has
      rw [objects_transition htransition]
      exact hid
    have hs := (settled_charged h pointerSize).trans (settled_transition htransition)
    refine hs.spend rfl (size_modifyObject hid₁ ?_)
    simp only [HeapObject.size, Array.size_push, Nat.succ_mul]
    omega

theorem settled_setElement (hid : h.Has id) {index : Nat} {value : Value}
    (hset : exec (setElement id index value) h = (.ok (), h'))
    : Settled 0 h h' := by
  rcases setElement_cases id index value h with ⟨-, hexec⟩ | ⟨size, hsize, hindex, hexec⟩ |
    ⟨size, e, -, -, hexec⟩ | ⟨size, hsize, hindex, -, hexec⟩
  . rw [hset] at hexec
    cases hexec
    exact settled_refl h
  . rw [hset] at hexec
    cases hexec
    have hput := size_putArrayElement hid hsize index value
    rw [if_pos hindex] at hput
    exact (settled_refl h).spend rfl hput
  . rw [hset] at hexec
    cases hexec
  . rw [hset] at hexec
    cases hexec
    have hsize' : (h.charged (growth size index)).arraySize? id = some size := hsize
    have hput := size_putArrayElement hid hsize' index value
    rw [if_neg (Nat.not_lt.2 hindex)] at hput
    exact (settled_charged h _).spend rfl hput

theorem settled_declare (hid : h.Has id) (hscope : (h.content id).isScope = true) {name : String}
    {value : Value} {mutable : Bool} (hdeclare : exec (declare id name value mutable) h = (.ok (), h'))
    : Settled 0 h h' := by
  obtain ⟨parent, bindings, hcontent⟩ : ∃ parent bindings, h.content id = .scope parent bindings := by
    cases hcontent : h.content id with
    | scope parent bindings => exact ⟨parent, bindings, rfl⟩
    | _ =>
      rw [hcontent] at hscope
      cases hscope
  rcases declare_cases id name value mutable h with ⟨i, -, hexec⟩ | ⟨-, -, hexec⟩ | ⟨-, -, hexec⟩
  . rw [hdeclare] at hexec
    cases hexec
    refine (settled_refl h).spend rfl (size_modifyContent hid ?_)
    rw [hcontent]
    simp [Content.mapBindings, Content.size]
  . rw [hdeclare] at hexec
    cases hexec
  . rw [hdeclare] at hexec
    cases hexec
    refine (settled_charged h pointerSize).spend rfl (size_modifyContent hid ?_)
    rw [hcontent]
    simp [Content.mapBindings, Content.size, Nat.succ_mul, Nat.add_assoc]

theorem settled_apply (hop : op.Succeeds h) : Settled 0 h (op.apply h) := by
  obtain ⟨hsized, hok⟩ := hop
  cases op with
  | allocate content =>
    change (exec (allocate content) h).1.map (fun _ => ()) = .ok () at hok
    change Settled 0 h (exec (allocate content) h).2
    rcases hallocate : exec (allocate content) h with ⟨e | id, h'⟩
    . rw [hallocate] at hok
      cases hok
    . exact settled_allocate hallocate
  | setProperty id key value => exact settled_setProperty hsized (Prod.ext hok rfl)
  | setElement id index value => exact settled_setElement hsized (Prod.ext hok rfl)
  | declare id name value mutable => exact settled_declare hsized.1 hsized.2 (Prod.ext hok rfl)

theorem Runs.settled (hr : Runs Op.Succeeds h h') : Settled 0 h h' := by
  induction hr with
  | refl => exact settled_refl h
  | tail _ hop ih =>
    obtain ⟨op, hsucceeds, rfl⟩ := hop
    exact ih.trans (settled_apply hsucceeds)

theorem Runs.paid {Allowed : Heap → Op → Prop} (hr : Runs Allowed h h') : Paid 0 h h' := by
  induction hr with
  | refl => exact .refl h
  | tail _ hop ih =>
    obtain ⟨op, -, rfl⟩ := hop
    exact ih.trans (paid_apply op _)

theorem size_le_of_mem {o : HeapObject} (ho : o ∈ h.objects) : o.size ≤ h.size := by
  unfold size
  apply Nat.le_add_right_of_le
  exact List.le_sum_of_mem (List.mem_map_of_mem (Array.mem_def.1 ho))

/-- What has been charged is within the limit and covers what there is, and nothing overflows. -/
theorem accounts_of_runs {limit : Nat} (hlimit : limit < sizeBound) (hr : Runs Op.Sized (empty limit) h)
    : h.size ≤ h.used ∧ h.used ≤ limit ∧
      (Runs Op.Succeeds (empty limit) h → h.used = h.size) ∧
      (∀ h', Runs Op.Sized h h' → h.used ≤ h'.used) ∧
      (∀ o ∈ h.objects, o.size? = some o.size) ∧
      (∀ op : Op, op.Sized h → op.inWords.run.run h = op.outcome h) := by
  have hp := hr.paid
  have hsize : h.size ≤ h.used := by
    have hspent := hp.spent
    change h.size + 0 + 0 ≤ 0 + h.used at hspent
    omega
  have hused : h.used ≤ limit := hp.used_le (Nat.zero_le limit)
  refine ⟨hsize, hused, ?_, ?_, ?_, ?_⟩
  . intro hr'
    have hs : h.size + 0 + 0 = 0 + h.used := hr'.settled
    omega
  . intro h' hr'
    exact hr'.paid.grows
  . intro o ho
    have hle := size_le_of_mem ho
    exact o.size?_eq (by omega)
  . intro op hop
    apply run_inWords _ hsize hop.targets
    . rintro content rfl
      exact size_lt_of_entries hop
    . rw [hp.limit]
      exact hlimit

/-- There is an array in the largest of all heaps. -/
def arrayHeap : Heap :=
  Op.apply (empty (sizeBound - 1)) (.allocate (.array #[]))

/-- An element at the largest index is refused without an overflow. -/
theorem accounts_of_runs_array
    : sizeBound - 1 < sizeBound ∧ Runs Op.Sized (empty (sizeBound - 1)) arrayHeap
      ∧ arrayHeap.used ≤ sizeBound - 1
      ∧ (Op.setElement ⟨0⟩ (sizeBound - 1) .null).inWords.run.run arrayHeap
        = (.error (.outOfMemory ⟨sizeBound - 1, 112, sizeBound - 1⟩), arrayHeap) := by
  have hlimit : sizeBound - 1 < sizeBound := by decide
  have hr : Runs Op.Sized (empty (sizeBound - 1)) arrayHeap := by
    refine .single ⟨.allocate (.array #[]), ?_, rfl⟩
    unfold Op.Sized
    decide
  obtain ⟨-, hused, -, -, -, hwords⟩ := accounts_of_runs hlimit hr
  have harray : (Op.setElement ⟨0⟩ (sizeBound - 1) .null).Sized arrayHeap := by
    change arrayHeap.Has ⟨0⟩
    decide
  exact ⟨hlimit, hr, hused, (hwords _ harray).trans rfl⟩

end Heap
end ScriptHost
