import ScriptHost.Heap.Basic

/-!
This module contains what the operations on a heap do, case by case. A failed operation leaves behind
the bytes that were charged before it failed, and nothing else.
-/

namespace ScriptHost.Heap

variable {α β : Type} {h : Heap}

/-- The result of an operation and the heap after it. -/
def exec (op : HeapM α) (h : Heap) : Except OutOfMemory α × Heap :=
  op.run.run h

theorem exec_bind (x : HeapM α) (f : α → HeapM β) (h : Heap)
    : exec (x >>= f) h = match exec x h with
      | (.ok a, h₁) => exec (f a) h₁
      | (.error e, h₁) => (.error e, h₁) := by
  unfold exec
  change StateT.run (ExceptT.run (ExceptT.bind x f)) h = _
  unfold ExceptT.bind ExceptT.run ExceptT.mk ExceptT.bindCont
  simp only [StateT.run_bind]
  rcases hx : StateT.run x h with ⟨_ | _, h₁⟩ <;> rfl

theorem exec_bind_ok {x : HeapM α} {a : α} {h₁ : Heap} (hx : exec x h = (.ok a, h₁))
    (f : α → HeapM β)
    : exec (x >>= f) h = exec (f a) h₁ := by
  rw [exec_bind, hx]

theorem exec_bind_error {x : HeapM α} {e : OutOfMemory} {h₁ : Heap} (hx : exec x h = (.error e, h₁))
    (f : α → HeapM β)
    : exec (x >>= f) h = (.error e, h₁) := by
  rw [exec_bind, hx]

theorem exec_bind_get (f : Heap → HeapM β) (h : Heap) : exec (get >>= f) h = exec (f h) h := rfl

def charged (h : Heap) (bytes : Nat) : Heap :=
  { h with used := h.used + bytes }

def failure (h : Heap) (bytes : Nat) : OutOfMemory :=
  ⟨bytes, h.used, h.limit⟩

theorem exec_charge_error {bytes : Nat} (hlimit : h.limit < h.used + bytes)
    : exec (charge bytes) h = (.error (h.failure bytes), h) := by
  unfold charge
  rw [exec_bind_get, if_pos hlimit]
  rfl

theorem exec_charge_ok {bytes : Nat} (hlimit : h.used + bytes ≤ h.limit)
    : exec (charge bytes) h = (.ok (), h.charged bytes) := by
  unfold charge
  rw [exec_bind_get, if_neg (Nat.not_lt.2 hlimit)]
  rfl

def addShape (h : Heap) (family : ShapeFamily) (keys : Array String) (back : Option ShapeId) : Heap :=
  { h with
    nextStableId := h.nextStableId + stableIdStep
    shapes := h.shapes.push ⟨h.nextStableId, family, keys, back, #[]⟩ }

theorem exec_newShape_error {family : ShapeFamily} {keys : Array String} {back : Option ShapeId}
    (hlimit : h.limit < h.used + shapeSize)
    : exec (newShape family keys back) h = (.error (h.failure shapeSize), h) := by
  unfold newShape
  rw [exec_bind_error (exec_charge_error hlimit)]

theorem exec_newShape_ok {family : ShapeFamily} {keys : Array String} {back : Option ShapeId}
    (hlimit : h.used + shapeSize ≤ h.limit)
    : exec (newShape family keys back) h
        =
      (.ok ⟨h.shapes.size⟩, (h.charged shapeSize).addShape family keys back) := by
  unfold newShape
  rw [exec_bind_ok (exec_charge_ok hlimit)]
  rfl

def addRootShape (h : Heap) (family : ShapeFamily) : Heap :=
  let h₁ := h.addShape family #[] none
  { h₁ with rootShapes := h.rootShapes ++ [(family, ⟨h.shapes.size⟩)] }

theorem rootShape_cases (family : ShapeFamily) (h : Heap)
    : (∃ shape, h.rootShapes.lookup family = some shape ∧
        exec (rootShape family) h = (.ok shape, h)) ∨
      (h.rootShapes.lookup family = none ∧ h.limit < h.used + shapeSize ∧
        exec (rootShape family) h = (.error (h.failure shapeSize), h)) ∨
      (h.rootShapes.lookup family = none ∧ h.used + shapeSize ≤ h.limit ∧
        exec (rootShape family) h
          = (.ok ⟨h.shapes.size⟩, (h.charged shapeSize).addRootShape family)) := by
  unfold rootShape
  rw [exec_bind_get]
  cases hlookup : h.rootShapes.lookup family with
  | some shape => exact Or.inl ⟨shape, rfl, rfl⟩
  | none =>
    right
    by_cases hlimit : h.limit < h.used + shapeSize
    . left
      refine ⟨rfl, hlimit, ?_⟩
      rw [exec_bind_error (exec_newShape_error hlimit)]
    . right
      rw [Nat.not_lt] at hlimit
      refine ⟨rfl, hlimit, ?_⟩
      rw [exec_bind_ok (exec_newShape_ok hlimit)]
      rfl

def modifyShape (h : Heap) (id : ShapeId) (f : Shape → Shape) : Heap :=
  { h with shapes := h.shapes.modify id.index f }

def addTransition (h : Heap) (source : ShapeId) (key : String) : Heap :=
  (h.addShape (h.shape source).family ((h.shape source).keys.push key) (some source)).modifyShape
    source fun s => { s with transitions := s.transitions.push (key, ⟨h.shapes.size⟩) }

theorem transition_cases (source : ShapeId) (key : String) (h : Heap)
    : (∃ t, (h.shape source).transitions.find? (fun t => t.1 == key) = some t ∧
        exec (transition source key) h = (.ok t.2, h)) ∨
      ((h.shape source).transitions.find? (fun t => t.1 == key) = none ∧
        h.limit < h.used + shapeSize ∧
        exec (transition source key) h = (.error (h.failure shapeSize), h)) ∨
      ((h.shape source).transitions.find? (fun t => t.1 == key) = none ∧
        h.used + shapeSize ≤ h.limit ∧
        exec (transition source key) h
          = (.ok ⟨h.shapes.size⟩, (h.charged shapeSize).addTransition source key)) := by
  unfold transition
  rw [exec_bind_get]
  dsimp only
  cases hfind : (h.shape source).transitions.find? (fun t => t.1 == key) with
  | some t => exact Or.inl ⟨t, rfl, rfl⟩
  | none =>
    right
    by_cases hlimit : h.limit < h.used + shapeSize
    . left
      refine ⟨rfl, hlimit, ?_⟩
      rw [exec_bind_error (exec_newShape_error hlimit)]
    . right
      rw [Nat.not_lt] at hlimit
      refine ⟨rfl, hlimit, ?_⟩
      rw [exec_bind_ok (exec_newShape_ok hlimit)]
      rfl

def addObject (h : Heap) (content : Content) (shape : ShapeId) : Heap :=
  { h with
    nextStableId := h.nextStableId + stableIdStep
    objects := h.objects.push ⟨h.nextStableId, shape, #[], content⟩ }

theorem allocate_cases (content : Content) (h : Heap)
    : (h.limit < h.used + content.size ∧
        exec (allocate content) h = (.error (h.failure content.size), h)) ∨
      (∃ e, h.used + content.size ≤ h.limit ∧
        exec (rootShape content.family) (h.charged content.size) = (.error e, h.charged content.size) ∧
        exec (allocate content) h = (.error e, h.charged content.size)) ∨
      (∃ shape h₁, h.used + content.size ≤ h.limit ∧
        exec (rootShape content.family) (h.charged content.size) = (.ok shape, h₁) ∧
        exec (allocate content) h = (.ok ⟨h₁.objects.size⟩, h₁.addObject content shape)) := by
  unfold allocate
  by_cases hlimit : h.limit < h.used + content.size
  . left
    rw [exec_bind_error (exec_charge_error hlimit)]
    exact ⟨hlimit, rfl⟩
  . right
    rw [Nat.not_lt] at hlimit
    rw [exec_bind_ok (exec_charge_ok hlimit)]
    rcases rootShape_cases content.family (h.charged content.size) with
      ⟨shape, -, hroot⟩ | ⟨-, -, hroot⟩ | ⟨-, -, hroot⟩
    . right
      refine ⟨shape, _, hlimit, hroot, ?_⟩
      rw [exec_bind_ok hroot]
      rfl
    . -- the bytes of the object stay charged if there is no room for its shape
      left
      refine ⟨_, hlimit, hroot, ?_⟩
      rw [exec_bind_error hroot]
    . right
      refine ⟨_, _, hlimit, hroot, ?_⟩
      rw [exec_bind_ok hroot]
      rfl

def putSlot (h : Heap) (id : ObjectId) (slot : Nat) (value : Value) : Heap :=
  h.modifyObject id fun o => { o with slots := o.slots.setIfInBounds slot value }

def addSlot (h : Heap) (id : ObjectId) (shape : ShapeId) (value : Value) : Heap :=
  h.modifyObject id fun o => { o with shape := shape, slots := o.slots.push value }

theorem setProperty_cases (id : ObjectId) (key : String) (value : Value) (h : Heap)
    : (∃ slot, (h.shapeOf id).slot? key = some slot ∧
        exec (setProperty id key value) h = (.ok (), h.putSlot id slot value)) ∨
      ((h.shapeOf id).slot? key = none ∧ h.limit < h.used + pointerSize ∧
        exec (setProperty id key value) h = (.error (h.failure pointerSize), h)) ∨
      (∃ e, (h.shapeOf id).slot? key = none ∧ h.used + pointerSize ≤ h.limit ∧
        exec (transition (h.object id).shape key) (h.charged pointerSize)
          = (.error e, h.charged pointerSize) ∧
        exec (setProperty id key value) h = (.error e, h.charged pointerSize)) ∨
      (∃ shape h₁, (h.shapeOf id).slot? key = none ∧ h.used + pointerSize ≤ h.limit ∧
        exec (transition (h.object id).shape key) (h.charged pointerSize) = (.ok shape, h₁) ∧
        exec (setProperty id key value) h = (.ok (), h₁.addSlot id shape value)) := by
  unfold setProperty shapeOf
  rw [exec_bind_get]
  dsimp only
  cases hslot : (h.shape (h.object id).shape).slot? key with
  | some slot => exact Or.inl ⟨slot, rfl, rfl⟩
  | none =>
    right
    by_cases hlimit : h.limit < h.used + pointerSize
    . left
      rw [exec_bind_error (exec_charge_error hlimit)]
      exact ⟨rfl, hlimit, rfl⟩
    . right
      rw [Nat.not_lt] at hlimit
      rw [exec_bind_ok (exec_charge_ok hlimit)]
      rcases transition_cases (h.object id).shape key (h.charged pointerSize) with
        ⟨t, -, htrans⟩ | ⟨-, -, htrans⟩ | ⟨-, -, htrans⟩
      . right
        refine ⟨_, _, rfl, hlimit, htrans, ?_⟩
        rw [exec_bind_ok htrans]
        rfl
      . -- so do those of the slot
        left
        refine ⟨_, rfl, hlimit, htrans, ?_⟩
        rw [exec_bind_error htrans]
      . right
        refine ⟨_, _, rfl, hlimit, htrans, ?_⟩
        rw [exec_bind_ok htrans]
        rfl

def putArrayElement (h : Heap) (id : ObjectId) (index : Nat) (value : Value) : Heap :=
  h.modifyContent id (.mapElements fun elements => putElement elements index value)

/-- The bytes that the elements of an array take more, if it grows up to `index`. -/
def growth (size index : Nat) : Nat :=
  (index - size + 1) * pointerSize

theorem setElement_cases (id : ObjectId) (index : Nat) (value : Value) (h : Heap)
    : (h.arraySize? id = none ∧ exec (setElement id index value) h = (.ok (), h)) ∨
      (∃ size, h.arraySize? id = some size ∧ index < size ∧
        exec (setElement id index value) h = (.ok (), h.putArrayElement id index value)) ∨
      (∃ size e, h.arraySize? id = some size ∧ size ≤ index ∧
        exec (setElement id index value) h = (.error e, h)) ∨
      (∃ size, h.arraySize? id = some size ∧ size ≤ index ∧
        h.used + growth size index ≤ h.limit ∧
        exec (setElement id index value) h
          = (.ok (), (h.charged (growth size index)).putArrayElement id index value)) := by
  unfold setElement
  rw [exec_bind_get]
  cases hsize : h.arraySize? id with
  | none => exact Or.inl ⟨rfl, rfl⟩
  | some size =>
    right
    dsimp only
    by_cases hindex : index < size
    . left
      rw [if_neg (by omega)]
      exact ⟨size, rfl, hindex, rfl⟩
    . right
      rw [if_pos (by omega)]
      -- more bytes than can be counted are refused before they are compared with the limit
      by_cases hbound : sizeBound ≤ (index - size + 1) * pointerSize
      . left
        rw [if_pos hbound]
        exact ⟨size, _, rfl, by omega, rfl⟩
      . rw [if_neg hbound]
        by_cases hlimit : h.limit < h.used + growth size index
        . left
          refine ⟨size, h.failure (growth size index), rfl, by omega, ?_⟩
          exact exec_bind_error (exec_charge_error hlimit) _
        . right
          rw [Nat.not_lt] at hlimit
          refine ⟨size, rfl, by omega, hlimit, ?_⟩
          exact exec_bind_ok (exec_charge_ok hlimit) _

def putBinding (h : Heap) (id : ObjectId) (i : Nat) (b : Binding) : Heap :=
  h.modifyContent id (.mapBindings fun bindings => bindings.setIfInBounds i b)

def addBinding (h : Heap) (id : ObjectId) (b : Binding) : Heap :=
  h.modifyContent id (.mapBindings fun bindings => bindings.push b)

theorem declare_cases (id : ObjectId) (name : String) (value : Value) (mutable : Bool) (h : Heap)
    : (∃ i, h.bindingIndex? id name = some i ∧
        exec (declare id name value mutable) h = (.ok (), h.putBinding id i ⟨name, value, mutable⟩)) ∨
      (h.bindingIndex? id name = none ∧ h.limit < h.used + pointerSize ∧
        exec (declare id name value mutable) h = (.error (h.failure pointerSize), h)) ∨
      (h.bindingIndex? id name = none ∧ h.used + pointerSize ≤ h.limit ∧
        exec (declare id name value mutable) h
          = (.ok (), (h.charged pointerSize).addBinding id ⟨name, value, mutable⟩)) := by
  unfold declare
  rw [exec_bind_get]
  cases hindex : h.bindingIndex? id name with
  | some i => exact Or.inl ⟨i, rfl, rfl⟩
  | none =>
    right
    by_cases hlimit : h.limit < h.used + pointerSize
    . left
      refine ⟨rfl, hlimit, ?_⟩
      exact exec_bind_error (exec_charge_error hlimit) _
    . right
      rw [Nat.not_lt] at hlimit
      refine ⟨rfl, hlimit, ?_⟩
      exact exec_bind_ok (exec_charge_ok hlimit) _

end ScriptHost.Heap
