import ScriptHost.Proofs.Heap.Budget
import ScriptHost.Proofs.Heap.Failure
import ScriptHost.Proofs.Heap.Tree

/-!
This module contains the operations on a heap in words, which are the numbers below `sizeBound`. A sum or
a product that is no word is refused where an operation checks it, and is a fault anywhere else. There are
no faults in a heap that has paid for what it holds.
-/

namespace ScriptHost

/-- A number, if it is a word. -/
def word? (n : Nat) : Option Nat :=
  if n < sizeBound then some n else none

theorem word?_of_lt {n : Nat} (hn : n < sizeBound) : word? n = some n :=
  if_pos hn

theorem word?_of_ge {n : Nat} (hn : sizeBound ≤ n) : word? n = none :=
  if_neg (Nat.not_lt.2 hn)

/-- The size of a content, if all sums and products are words. -/
def Content.size? : Content → Option Nat
  | ordinary | global | error _ => some objectHeaderSize
  | array elements => do word? (arrayHeaderSize + (← word? (elements.size * pointerSize)))
  | closure .. => some closureSize
  | native _ => some nativeSize
  | scope _ bindings => do word? (scopeHeaderSize + (← word? (bindings.size * pointerSize)))

def HeapObject.size? (o : HeapObject) : Option Nat := do
  word? ((← o.content.size?) + (← word? (o.slots.size * pointerSize)))

theorem Content.size?_eq (c : Content) (hc : c.size < sizeBound) : c.size? = some c.size := by
  have hsum : ∀ header n, header + n < sizeBound →
      (do word? (header + (← word? n))) = some (header + n) := by
    intro header n hlt
    have hn : word? n = some n := word?_of_lt (Nat.lt_of_le_of_lt (Nat.le_add_left n header) hlt)
    rw [hn]
    exact word?_of_lt hlt
  cases c with
  | array => exact hsum _ _ hc
  | scope => exact hsum _ _ hc
  | _ => rfl

theorem HeapObject.size?_eq (o : HeapObject) (ho : o.size < sizeBound) : o.size? = some o.size := by
  unfold HeapObject.size at ho
  have hcontent := o.content.size?_eq (by omega)
  have hslots : word? (o.slots.size * pointerSize) = some (o.slots.size * pointerSize) :=
    word?_of_lt (by omega)
  unfold HeapObject.size?
  rw [hcontent, hslots]
  exact word?_of_lt ho

namespace Heap

/-- How an operation in words fails. -/
inductive WordError where
  | outOfMemory (e : OutOfMemory)
  | overflow

namespace Words

abbrev WordM := ExceptT WordError (StateM Heap)

variable {α β : Type}

def orOverflow : Option α → WordM α
  | some a => return a
  | none => throw .overflow

def charge (bytes : Nat) : WordM Unit := do
  let h ← get
  match word? (h.used + bytes) with
  | none => throw (.outOfMemory (h.failure bytes))
  | some total =>
    if h.limit < total then
      throw (.outOfMemory (h.failure bytes))
    let used ← orOverflow (word? (h.used + bytes))
    set { h with used := used }

def newShape (family : ShapeFamily) (keys : Array String) (back : Option ShapeId) : WordM ShapeId := do
  charge shapeSize
  modifyGet fun h => (⟨h.shapes.size⟩, h.addShape family keys back)

def rootShape (family : ShapeFamily) : WordM ShapeId := do
  match (← get).rootShapes.lookup family with
  | some shape => return shape
  | none =>
    let shape ← newShape family #[] none
    modify fun h => { h with rootShapes := h.rootShapes ++ [(family, shape)] }
    return shape

def transition (source : ShapeId) (key : String) : WordM ShapeId := do
  let shape := (← get).shape source
  match shape.transitions.find? fun t => t.1 == key with
  | some (_, target) => return target
  | none =>
    let target ← newShape shape.family (shape.keys.push key) (some source)
    modify fun h => h.modifyShape source fun s => { s with transitions := s.transitions.push (key, target) }
    return target

def allocate (content : Content) : WordM ObjectId := do
  let bytes ← orOverflow content.size?
  charge bytes
  let shape ← rootShape content.family
  modifyGet fun h => (⟨h.objects.size⟩, h.addObject content shape)

def setProperty (id : ObjectId) (key : String) (value : Value) : WordM Unit := do
  let h ← get
  match (h.shapeOf id).slot? key with
  | some slot => modify fun h => h.putSlot id slot value
  | none =>
    charge pointerSize
    let target ← transition (h.object id).shape key
    modify fun h => h.addSlot id target value

/-- The bytes for the places up to `index`, if there are so many. -/
def growth? (size index : Nat) : Option Nat := do
  word? ((← word? (index - size + 1)) * pointerSize)

/-- The elements of an array with `undefined` in places that did not exist, up to `size`. -/
def resize (elements : Array Value) (size : Nat) : Array Value :=
  elements ++ Array.replicate (size - elements.size) Value.undefined

/-- The number of elements of an array that has had `size` of them and gets one at `index`. -/
def newSize (size index : Nat) : WordM Nat :=
  if size ≤ index then orOverflow (word? (index + 1)) else pure size

def setElement (id : ObjectId) (index : Nat) (value : Value) : WordM Unit := do
  match (← get).arraySize? id with
  | some size =>
    if size ≤ index then
      match growth? size index with
      | some bytes => charge bytes
      | none =>
        let h ← get
        throw (.outOfMemory ⟨sizeBound - 1, h.used, h.limit⟩)
    let size ← newSize size index
    modify fun h => h.modifyContent id
      (.mapElements fun elements => (resize elements size).setIfInBounds index value)
  | none => return

def declare (id : ObjectId) (name : String) (value : Value) (mutable : Bool) : WordM Unit := do
  match (← get).bindingIndex? id name with
  | some i => modify fun h => h.putBinding id i ⟨name, value, mutable⟩
  | none =>
    charge pointerSize
    modify fun h => h.addBinding id ⟨name, value, mutable⟩

/-- The computation in words does in a heap what the operation does. -/
def Agrees (h : Heap) (x : WordM α) (y : HeapM α) : Prop :=
  x.run.run h = Prod.map (Except.mapError WordError.outOfMemory) id (exec y h)

variable {h : Heap} {x : WordM α} {y : HeapM α} {f : α → WordM β} {g : α → HeapM β}

theorem Agrees.bind (hx : Agrees h x y)
    (hf : ∀ a h', exec y h = (.ok a, h') → Agrees h' (f a) (g a))
    : Agrees h (x >>= f) (y >>= g) := by
  unfold Agrees at *
  rw [exec_bind]
  change StateT.run (ExceptT.run (ExceptT.bind x f)) h = _
  unfold ExceptT.bind ExceptT.run ExceptT.mk ExceptT.bindCont
  simp only [StateT.run_bind]
  rcases hy : exec y h with ⟨e | a, h'⟩
  . rw [hy] at hx
    change StateT.run x h = (.error (.outOfMemory e), h') at hx
    rw [hx]
    rfl
  . rw [hy] at hx
    change StateT.run x h = (.ok a, h') at hx
    rw [hx]
    exact hf a h' hy

theorem agrees_get {f : Heap → WordM β} {g : Heap → HeapM β} (hf : Agrees h (f h) (g h))
    : Agrees h (get >>= f) (get >>= g) :=
  hf

theorem agrees_modify {f g : Heap → Heap} (hfg : f h = g h) : Agrees h (modify f) (modify g) := by
  change (Except.ok (), f h) = (Except.ok (), g h)
  rw [hfg]

theorem agrees_charge (hlimit : h.limit < sizeBound) (bytes : Nat)
    : Agrees h (charge bytes) (Heap.charge bytes) := by
  apply agrees_get
  by_cases hroom : h.limit < h.used + bytes
  . rw [if_pos hroom]
    by_cases hword : h.used + bytes < sizeBound
    . rw [word?_of_lt hword]
      dsimp only
      rw [if_pos hroom]
      rfl
    . rw [word?_of_ge (Nat.not_lt.1 hword)]
      rfl
  . have hword : h.used + bytes < sizeBound := by omega
    rw [if_neg hroom, word?_of_lt hword]
    dsimp only
    rw [if_neg hroom]
    rfl

theorem charge_ok {bytes : Nat} {h' : Heap} (hcharge : exec (Heap.charge bytes) h = (.ok (), h'))
    : h' = h.charged bytes ∧ h.used + bytes ≤ h.limit := by
  by_cases hroom : h.limit < h.used + bytes
  . rw [exec_charge_error hroom] at hcharge
    cases hcharge
  . rw [exec_charge_ok (Nat.not_lt.1 hroom)] at hcharge
    cases hcharge
    exact ⟨rfl, Nat.not_lt.1 hroom⟩

theorem agrees_newShape (hlimit : h.limit < sizeBound) (family : ShapeFamily) (keys : Array String)
    (back : Option ShapeId)
    : Agrees h (newShape family keys back) (Heap.newShape family keys back) :=
  (agrees_charge hlimit shapeSize).bind fun _ _ _ => rfl

theorem agrees_rootShape (hlimit : h.limit < sizeBound) (family : ShapeFamily)
    : Agrees h (rootShape family) (Heap.rootShape family) := by
  apply agrees_get
  cases h.rootShapes.lookup family with
  | some shape => rfl
  | none => exact (agrees_newShape hlimit family #[] none).bind fun _ _ _ => rfl

theorem agrees_transition (hlimit : h.limit < sizeBound) (source : ShapeId) (key : String)
    : Agrees h (transition source key) (Heap.transition source key) := by
  apply agrees_get
  dsimp only
  cases (h.shape source).transitions.find? (fun t => t.1 == key) with
  | some t => rfl
  | none => exact (agrees_newShape hlimit _ _ _).bind fun _ _ _ => rfl

theorem agrees_allocate (hlimit : h.limit < sizeBound) {content : Content}
    (hcontent : content.size < sizeBound)
    : Agrees h (allocate content) (Heap.allocate content) := by
  unfold allocate
  rw [content.size?_eq hcontent]
  apply (agrees_charge hlimit content.size).bind
  intro _ h' hcharge
  have hlimit' : (h.charged content.size).limit < sizeBound := hlimit
  rw [(charge_ok hcharge).1]
  exact (agrees_rootShape hlimit' content.family).bind fun _ _ _ => rfl

theorem agrees_setProperty (hlimit : h.limit < sizeBound) (id : ObjectId) (key : String) (value : Value)
    : Agrees h (setProperty id key value) (Heap.setProperty id key value) := by
  apply agrees_get
  dsimp only [shapeOf]
  cases (h.shape (h.object id).shape).slot? key with
  | some slot => rfl
  | none =>
    apply (agrees_charge hlimit pointerSize).bind
    intro _ h' hcharge
    have hlimit' : (h.charged pointerSize).limit < sizeBound := hlimit
    rw [(charge_ok hcharge).1]
    exact (agrees_transition hlimit' _ key).bind fun _ _ _ => rfl

theorem agrees_declare (hlimit : h.limit < sizeBound) (id : ObjectId) (name : String) (value : Value)
    (mutable : Bool)
    : Agrees h (declare id name value mutable) (Heap.declare id name value mutable) := by
  apply agrees_get
  cases h.bindingIndex? id name with
  | some i => rfl
  | none => exact (agrees_charge hlimit pointerSize).bind fun _ _ _ => rfl

theorem growth?_eq (size index : Nat)
    : growth? size index = word? ((index - size + 1) * pointerSize) := by
  unfold growth?
  by_cases hword : index - size + 1 < sizeBound
  . rw [word?_of_lt hword]
    rfl
  . unfold pointerSize
    rw [word?_of_ge (Nat.not_lt.1 hword), word?_of_ge (by omega)]
    rfl

theorem putElement_eq (elements : Array Value) (index : Nat) (value : Value)
    : (resize elements (if elements.size ≤ index then index + 1 else elements.size)).setIfInBounds index
        value
        =
      putElement elements index value := by
  unfold putElement resize
  by_cases hindex : index < elements.size
  . rw [if_pos hindex, if_neg (Nat.not_le.2 hindex), Nat.sub_self]
    simp
  . rw [Nat.not_lt] at hindex
    have hsize : (elements ++ Array.replicate (index - elements.size) Value.undefined).size = index := by
      simp
      omega
    rw [if_pos hindex, if_neg (Nat.not_lt.2 hindex), Nat.sub_add_comm hindex, Array.replicate_succ,
      Array.append_push]
    generalize elements ++ Array.replicate (index - elements.size) Value.undefined = filled at *
    subst hsize
    simp [Array.setIfInBounds, Array.set_push]

theorem modifyContent_congr {id : ObjectId} {f g : Content → Content}
    (hfg : f (h.content id) = g (h.content id))
    : h.modifyContent id f = h.modifyContent id g := by
  unfold modifyContent modifyObject
  congr 1
  apply Array.ext_getElem?
  intro i
  rw [Array.getElem?_modify, Array.getElem?_modify]
  split
  . next hi =>
    subst hi
    cases hobject : h.objects[id.index]? with
    | none => rfl
    | some o =>
      have hcontent : h.content id = o.content := congrArg HeapObject.content (object_of_getElem? hobject).2
      rw [hcontent] at hfg
      simp only [Option.map_some, hfg]
  . rfl

/-- The elements of an array have been paid for. -/
theorem size_elements_le {id : ObjectId} (hid : h.Has id) {size : Nat} (hsize : h.arraySize? id = some size)
    : size * pointerSize ≤ h.size := by
  obtain ⟨elements, hcontent, rfl⟩ := arraySize?_eq_some hsize
  have hobject := size_object_le hid
  change h.content id = _ at hcontent
  unfold content at hcontent
  unfold HeapObject.size at hobject
  rw [hcontent] at hobject
  change arrayHeaderSize + elements.size * pointerSize + _ ≤ h.size at hobject
  omega

theorem agrees_putElement {id : ObjectId} {size : Nat} (hsize : h.arraySize? id = some size) {index : Nat}
    (hindex : size ≤ index → index + 1 < sizeBound) (value : Value)
    : Agrees h (do
        let size ← newSize size index
        modify fun h => h.modifyContent id
          (.mapElements fun elements => (resize elements size).setIfInBounds index value))
        (modify fun h => h.modifyContent id
          (.mapElements fun elements => putElement elements index value)) := by
  have hnew : newSize size index = pure (if size ≤ index then index + 1 else size) := by
    unfold newSize
    split
    . next hle =>
      rw [word?_of_lt (hindex hle)]
      rfl
    . rfl
  rw [hnew, pure_bind]
  apply agrees_modify
  apply modifyContent_congr
  obtain ⟨elements, hcontent, rfl⟩ := arraySize?_eq_some hsize
  rw [hcontent]
  exact congrArg Content.array (putElement_eq elements index value)

/-- The successor of an index that is paid for is a word. -/
theorem agrees_setElement (hlimit : h.limit < sizeBound) (hpaid : h.size ≤ h.used) {id : ObjectId}
    (hid : h.Has id) (index : Nat) (value : Value)
    : Agrees h (setElement id index value) (Heap.setElement id index value) := by
  apply agrees_get
  cases hsize : h.arraySize? id with
  | none => rfl
  | some size =>
    dsimp only
    by_cases hindex : size ≤ index
    . rw [if_pos hindex, if_pos hindex, growth?_eq]
      by_cases hword : (index - size + 1) * pointerSize < sizeBound
      . rw [word?_of_lt hword, if_neg (Nat.not_le.2 hword)]
        apply (agrees_charge hlimit _).bind
        intro _ h' hcharge
        obtain ⟨rfl, hroom⟩ := charge_ok hcharge
        have helements := size_elements_le hid hsize
        have hsize' : (h.charged ((index - size + 1) * pointerSize)).arraySize? id = some size := hsize
        apply agrees_putElement hsize'
        unfold pointerSize at *
        omega
      . rw [Nat.not_lt] at hword
        rw [word?_of_ge hword, if_pos hword]
        rfl
    . rw [if_neg hindex, if_neg hindex]
      exact agrees_putElement hsize (fun hle => absurd hle hindex) value

end Words

open Words in
/-- An operation in words. -/
def Op.inWords : Op → WordM Unit
  | allocate content => discard (Words.allocate content)
  | setProperty id key value => Words.setProperty id key value
  | setElement id index value => Words.setElement id index value
  | declare id name value mutable => Words.declare id name value mutable

/-- What an operation in words gives where nothing overflows. -/
def Op.outcome (h : Heap) (op : Op) : Except WordError Unit × Heap :=
  ((op.result h).mapError WordError.outOfMemory, op.apply h)

theorem run_inWords {h : Heap} {op : Op} (hlimit : h.limit < sizeBound) (hpaid : h.size ≤ h.used)
    (hop : op.Targets h) (hcontent : ∀ content, op = .allocate content → content.size < sizeBound)
    : op.inWords.run.run h = op.outcome h := by
  cases op with
  | allocate content =>
    have hallocate := Words.agrees_allocate hlimit (hcontent content rfl)
    have hdiscard := hallocate.bind (f := fun _ => pure ()) (g := fun _ => pure ()) fun _ _ _ => rfl
    refine hdiscard.trans ?_
    rw [exec_bind]
    change _ = (((exec (allocate content) h).1.map fun _ => ()).mapError WordError.outOfMemory,
      (exec (allocate content) h).2)
    rcases exec (allocate content) h with ⟨_ | _, h'⟩ <;> rfl
  | setProperty id key value => exact Words.agrees_setProperty hlimit id key value
  | setElement id index value => exact Words.agrees_setElement hlimit hpaid hop index value
  | declare id name value mutable => exact Words.agrees_declare hlimit id name value mutable

end Heap
end ScriptHost
