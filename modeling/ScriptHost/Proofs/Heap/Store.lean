import ScriptHost.Proofs.Heap.Canonical
import ScriptHost.Proofs.Heap.Elements
import ScriptHost.Proofs.Heap.Failure

/-!
This module contains a plain store, in which every object has its own list of properties, and the proof that
a heap behaves like one: an operation that succeeds does to the objects of the heap what it does to those of
the store. That objects of a heap share their shapes cannot be seen.
-/

namespace ScriptHost

/-- An object without its shape: what it holds, and its properties in the order in which it got them. -/
structure Record where
  content : Content
  properties : List (String × Value)

namespace Record

variable {r : Record} {key key' : String} {v : Value}

def keys (r : Record) : List String :=
  r.properties.map Prod.fst

def value? (r : Record) (key : String) : Option Value :=
  r.properties.lookup key

/-- The elements up to the greater one of their last place and `index`. -/
def place (elements : Array Value) (index : Nat) (v : Value) : Array Value :=
  Array.ofFn fun i : Fin (max elements.size (index + 1)) =>
    if i.val = index then v else elements[i.val]?.getD .undefined

/-- A name that is bound gets another binding in its place, and a new one comes last. -/
def bind (bindings : Array Binding) (b : Binding) : Array Binding :=
  if ∃ b' ∈ bindings, b'.name = b.name then bindings.map fun b' => if b'.name = b.name then b else b'
  else bindings.push b

/-- A key that is there gets another value, and a new one comes last. -/
def setProperty (r : Record) (key : String) (v : Value) : Record :=
  { r with
    properties :=
      if key ∈ r.keys then r.properties.map fun p => if p.1 = key then (key, v) else p
      else r.properties ++ [(key, v)] }

def setElement (r : Record) (index : Nat) (v : Value) : Record :=
  { r with content := r.content.mapElements fun elements => place elements index v }

def declare (r : Record) (b : Binding) : Record :=
  { r with content := r.content.mapBindings fun bindings => bind bindings b }

theorem lookup_replace (properties : List (String × Value)) (key : String) (v : Value) (key' : String)
    : (properties.map fun p => if p.1 = key then (key, v) else p).lookup key'
        =
      if key' = key then (properties.lookup key).map fun _ => v else properties.lookup key' := by
  induction properties with
  | nil => simp
  | cons p properties ih =>
    obtain ⟨k, w⟩ := p
    rw [List.map_cons]
    by_cases hk : k = key
    . rw [if_pos hk, hk, List.lookup_cons, List.lookup_cons, ih]
      by_cases hsame : key' = key
      . simp [hsame]
      . simp [List.lookup_cons, hsame, beq_eq_false_iff_ne.2 hsame]
    . rw [if_neg hk, List.lookup_cons, List.lookup_cons, ih]
      have hne : (key == k) = false := beq_eq_false_iff_ne.2 (Ne.symm hk)
      by_cases hsame : key' = key
      . simp [hsame, hne]
      . simp [List.lookup_cons, hsame]

theorem keys_setProperty (r : Record) (key : String) (v : Value)
    : (r.setProperty key v).keys = if key ∈ r.keys then r.keys else r.keys ++ [key] := by
  unfold setProperty
  by_cases hkey : key ∈ r.keys
  . rw [if_pos hkey, if_pos hkey]
    unfold keys
    rw [List.map_map]
    apply List.map_congr_left
    intro p _
    by_cases hsame : p.1 = key
    . simp [hsame]
    . simp [hsame]
  . rw [if_neg hkey, if_neg hkey]
    unfold keys
    rw [List.map_append]
    rfl

theorem value?_eq_none_iff : r.value? key = none ↔ key ∉ r.keys := by
  unfold value? keys
  rw [List.lookup_eq_none_iff, List.mem_map]
  constructor
  . rintro hnone ⟨p, hp, rfl⟩
    simpa using hnone p hp
  . intro hkey p hp
    have hne : key ≠ p.1 := fun heq => hkey ⟨p, hp, heq.symm⟩
    simpa using hne

theorem value?_setProperty (r : Record) (key : String) (v : Value) (key' : String)
    : (r.setProperty key v).value? key' = if key' = key then some v else r.value? key' := by
  unfold setProperty
  by_cases hkey : key ∈ r.keys
  . have hsome : r.value? key ≠ none := fun hnone => value?_eq_none_iff.1 hnone hkey
    obtain ⟨w, hw⟩ := Option.ne_none_iff_exists'.1 hsome
    unfold value? at hw ⊢
    rw [if_pos hkey, lookup_replace, hw]
    rfl
  . have hnone : r.value? key = none := value?_eq_none_iff.2 hkey
    unfold value? at hnone ⊢
    rw [if_neg hkey, List.lookup_append]
    by_cases hsame : key' = key
    . rw [if_pos hsame, hsame, hnone]
      simp
    . simp [hsame, List.lookup_cons, beq_eq_false_iff_ne.2 hsame]

theorem size_place (elements : Array Value) (i : Nat) (v : Value)
    : (place elements i v).size = max elements.size (i + 1) :=
  Array.size_ofFn

theorem getElem?_place (elements : Array Value) (i : Nat) (v : Value) (j : Nat)
    : (place elements i v)[j]?
        =
      if j < max elements.size (i + 1) then some (if j = i then v else elements[j]?.getD .undefined)
      else none := by
  unfold place
  rw [Array.getElem?_ofFn]
  rfl

/-- No name is bound twice. -/
def Distinct (bindings : Array Binding) : Prop :=
  (bindings.map Binding.name).toList.Nodup

theorem Distinct.index_eq {bindings : Array Binding} (hd : Distinct bindings) {i j : Nat}
    (hi : i < bindings.size) (hj : j < bindings.size) (hname : bindings[i].name = bindings[j].name)
    : i = j := by
  have hlength : (bindings.map Binding.name).toList.length = bindings.size := by simp
  have heq := @List.Nodup.injective_get _ _ hd ⟨i, hlength ▸ hi⟩ ⟨j, hlength ▸ hj⟩ (by simpa using hname)
  exact congrArg Fin.val heq

theorem names_bind (bindings : Array Binding) (b : Binding)
    : (bind bindings b).map Binding.name
        =
      if ∃ b' ∈ bindings, b'.name = b.name then bindings.map Binding.name
      else (bindings.map Binding.name).push b.name := by
  unfold bind
  split
  . rw [Array.map_map]
    apply Array.map_congr_left
    intro b' _
    by_cases hsame : b'.name = b.name
    . simp [hsame]
    . simp [hsame]
  . exact Array.map_push

theorem Distinct.bind {bindings : Array Binding} (hd : Distinct bindings) (b : Binding)
    : Distinct (bind bindings b) := by
  unfold Distinct at hd ⊢
  rw [names_bind]
  split
  . exact hd
  . next hnew =>
    rw [Array.toList_push, List.nodup_append]
    refine ⟨hd, List.pairwise_singleton _ _, ?_⟩
    rintro name hname name' hname' rfl
    rw [List.mem_singleton.1 hname', ← Array.mem_def, Array.mem_map] at hname
    exact hnew hname

end Record

namespace Heap

variable {h h' h₁ : Heap} {op : Op} {id id' : ObjectId} {key name : String} {v : Value} {i : Nat}

def record (h : Heap) (id : ObjectId) : Record where
  content := h.content id
  properties := (h.keys id).toList.zip (h.object id).slots.toList

def records (h : Heap) : List Record :=
  (List.range h.objects.size).map fun i => h.record ⟨i⟩

namespace Op

/-- The object that an operation is about, unless it is a new one. -/
def target? : Op → Option ObjectId
  | allocate _ => none
  | setProperty id _ _ | setElement id _ _ | declare id _ _ _ => some id

/-- What an operation does to the objects of a store. -/
def perform (records : List Record) : Op → List Record
  | allocate content => records ++ [⟨content, []⟩]
  | setProperty id key v => records.modify id.index (·.setProperty key v)
  | setElement id index v => records.modify id.index (·.setElement index v)
  | declare id name v mutable => records.modify id.index (·.declare ⟨name, v, mutable⟩)

end Op

/-! What is read of an object is read of its record. -/

theorem lookup_zip (keys : List String) (slots : List Value) (key : String)
    : (keys.zip slots).lookup key = (keys.findIdx? (· == key)).bind fun slot => slots[slot]? := by
  induction keys generalizing slots with
  | nil => rfl
  | cons k keys ih =>
    cases slots with
    | nil => cases (k :: keys).findIdx? (· == key) <;> rfl
    | cons w slots =>
      rw [List.zip_cons_cons, List.lookup_cons, List.findIdx?_cons]
      by_cases hk : k = key
      . simp [hk]
      . have hne : (key == k) = false := beq_eq_false_iff_ne.2 (Ne.symm hk)
        rw [hne, if_neg (by simpa using hk), ih, Option.bind_map]
        rfl

theorem property?_eq_value? (h : Heap) (id : ObjectId) (key : String)
    : h.property? id key = (h.record id).value? key := by
  unfold Record.value? record
  rw [lookup_zip, property?_eq, ← List.findIdx?_toArray, Array.toArray_toList]
  simp only [Array.getElem?_toList]

theorem Tree.keys_eq_keys (ht : h.Tree) (hid : h.Has id) : (h.keys id).toList = (h.record id).keys := by
  have hsize : (h.object id).slots.size = (h.keys id).size := (ht.objects _ (object_mem hid)).slots
  unfold Record.keys record
  rw [List.map_fst_zip]
  rw [Array.length_toList, Array.length_toList, hsize]

/-! Objects that an operation is not about. -/

theorem object_apply_of_ne (hid : h.Has id) (hne : op.target? ≠ some id)
    : (op.apply h).object id = h.object id := by
  have hmodify : ∀ (h₁ : Heap) {id' : ObjectId} {f : HeapObject → HeapObject}, h₁.objects = h.objects →
      id' ≠ id → (h₁.modifyObject id' f).object id = h.object id := by
    intro h₁ id' f hobjects hne
    rw [object_modifyObject (has_of_objects_eq hobjects hid), if_neg hne, object_of_objects_eq hobjects]
  cases op with
  | allocate content =>
    change (exec (Heap.allocate content) h).2.object id = _
    rcases allocate_cases content h with ⟨-, hexec⟩ | ⟨e, -, -, hexec⟩ | ⟨shape, h₁, -, hroot, hexec⟩
    . rw [hexec]
    . rw [hexec]
      rfl
    . have hobjects : h₁.objects = (h.charged content.size).objects := objects_rootShape hroot
      rw [hexec]
      dsimp only
      rw [object_addObject (has_of_objects_eq hobjects hid), object_of_objects_eq hobjects]
      rfl
  | setProperty id' key v =>
    have hne' : id' ≠ id := fun heq => hne (congrArg some heq)
    change (exec (Heap.setProperty id' key v) h).2.object id = _
    rcases setProperty_cases id' key v h with ⟨slot, -, hexec⟩ | ⟨-, -, hexec⟩ |
      ⟨e, -, -, -, hexec⟩ | ⟨shape, h₁, -, -, htransition, hexec⟩
    . rw [hexec]
      exact hmodify h rfl hne'
    . rw [hexec]
    . rw [hexec]
      rfl
    . have hobjects : h₁.objects = (h.charged pointerSize).objects := objects_transition htransition
      rw [hexec]
      exact hmodify h₁ hobjects hne'
  | setElement id' index v =>
    have hne' : id' ≠ id := fun heq => hne (congrArg some heq)
    change (exec (Heap.setElement id' index v) h).2.object id = _
    rcases setElement_cases id' index v h with ⟨-, hexec⟩ | ⟨size, -, -, hexec⟩ |
      ⟨size, e, -, -, hexec⟩ | ⟨size, -, -, -, hexec⟩
    . rw [hexec]
    . rw [hexec]
      exact hmodify h rfl hne'
    . rw [hexec]
    . rw [hexec]
      exact hmodify (h.charged (growth size index)) rfl hne'
  | declare id' name v mutable =>
    have hne' : id' ≠ id := fun heq => hne (congrArg some heq)
    change (exec (Heap.declare id' name v mutable) h).2.object id = _
    rcases declare_cases id' name v mutable h with ⟨i, -, hexec⟩ | ⟨-, -, hexec⟩ | ⟨-, -, hexec⟩
    . rw [hexec]
      exact hmodify h rfl hne'
    . rw [hexec]
    . rw [hexec]
      exact hmodify (h.charged pointerSize) rfl hne'

/-- An object that keeps its shape keeps its keys, whatever other shapes come. -/
theorem Tree.keys_of_growsTo (ht : h.Tree) (hid : h.Has id) (hg : h.GrowsTo h')
    (hshape : (h'.object id).shape = (h.object id).shape)
    : h'.keys id = h.keys id := by
  unfold keys shapeOf
  rw [hshape]
  exact hg.keeps.keys (ht.objects _ (object_mem hid)).shape

theorem Tree.record_of_growsTo (ht : h.Tree) (hid : h.Has id) (hg : h.GrowsTo h')
    (hobject : h'.object id = h.object id)
    : h'.record id = h.record id := by
  have hkeys := ht.keys_of_growsTo hid hg (congrArg HeapObject.shape hobject)
  unfold record content
  rw [hkeys, hobject]

theorem Tree.record_apply_of_ne (ht : h.Tree) (hop : op.Targets h) (hid : h.Has id)
    (hne : op.target? ≠ some id)
    : (op.apply h).record id = h.record id :=
  ht.record_of_growsTo hid (ht.growsTo_apply hop) (object_apply_of_ne hid hne)

/-! The objects that they are about. -/

theorem record_eq {o : HeapObject} {keys : Array String} (hobject : h.object id = o)
    (hkeys : h.keys id = keys)
    : h.record id = ⟨o.content, keys.toList.zip o.slots.toList⟩ := by
  unfold record content
  rw [hobject, hkeys]

theorem Tree.record_allocate (ht : h.Tree) {content : Content}
    (hallocate : exec (allocate content) h = (.ok id, h'))
    : id = ⟨h.objects.size⟩ ∧ h'.objects.size = h.objects.size + 1 ∧ h'.record id = ⟨content, []⟩ := by
  have hg := ht.growsTo_allocate content
  rcases allocate_cases content h with ⟨-, hexec⟩ | ⟨e, -, -, hexec⟩ | ⟨shape, h₁, -, hroot, hexec⟩
  . rw [hallocate] at hexec
    cases hexec
  . rw [hallocate] at hexec
    cases hexec
  . rw [hallocate] at hexec hg
    cases hexec
    have hobjects : h₁.objects = (h.charged content.size).objects := objects_rootShape hroot
    have hobject : (h₁.addObject content shape).object ⟨h₁.objects.size⟩
        = ⟨h₁.nextStableId, shape, #[], content⟩ := by
      unfold Heap.object Heap.addObject
      rw [Array.getD_eq_getD_getElem?, Array.getElem?_push_size]
      rfl
    refine ⟨congrArg (fun objects => ObjectId.mk objects.size) hobjects, ?_, ?_⟩
    . unfold Heap.addObject
      rw [Array.size_push, hobjects]
      rfl
    . unfold record Heap.content
      rw [hobject, List.zip_nil_right]

theorem zip_set {keys : List String} (hnodup : keys.Nodup) (hkey : keys[i]? = some key) (slots : List Value)
    (v : Value)
    : keys.zip (slots.set i v) = (keys.zip slots).map fun p => if p.1 = key then (key, v) else p := by
  induction keys generalizing i slots with
  | nil => rfl
  | cons k keys ih =>
    obtain ⟨hnew, hnodup⟩ := List.nodup_cons.1 hnodup
    cases slots with
    | nil => rfl
    | cons w slots =>
      cases i with
      | zero =>
        obtain rfl : k = key := Option.some.inj hkey
        have hother : ∀ p ∈ keys.zip slots, (if p.1 = k then (k, v) else p) = p := by
          intro p hp
          rw [if_neg]
          rintro rfl
          exact hnew (List.of_mem_zip hp).1
        rw [List.set_cons_zero, List.zip_cons_cons, List.zip_cons_cons, List.map_cons, if_pos rfl,
          List.map_congr_left hother, List.map_id']
      | succ i =>
        rw [List.getElem?_cons_succ] at hkey
        have hne : k ≠ key := by
          rintro rfl
          exact hnew (List.mem_of_getElem? hkey)
        rw [List.set_cons_succ, List.zip_cons_cons, List.zip_cons_cons, List.map_cons, if_neg hne,
          ih hnodup hkey]

theorem Tree.record_setProperty (ht : h.Tree) (hid : h.Has id)
    (hset : exec (setProperty id key v) h = (.ok (), h'))
    : h'.record id = (h.record id).setProperty key v := by
  have hg := ht.growsTo_setProperty hid key v
  rw [hset] at hg
  have hshaped := ht.objects _ (object_mem hid)
  rcases setProperty_cases id key v h with ⟨slot, hslot, hexec⟩ | ⟨-, -, hexec⟩ |
    ⟨e, -, -, -, hexec⟩ | ⟨shape, h₁, hslot, -, htransition, hexec⟩
  . rw [hset] at hexec
    cases hexec
    have hobject : (h.putSlot id slot v).object id
        = { h.object id with slots := (h.object id).slots.setIfInBounds slot v } := by
      unfold Heap.putSlot
      rw [object_modifyObject hid, if_pos rfl]
    have hshape : ((h.putSlot id slot v).object id).shape = (h.object id).shape := by
      rw [hobject]
    obtain ⟨hlt, hkey, -⟩ := Array.findIdx?_eq_some_iff_getElem.1 hslot
    have hkey' : (h.keys id).toList[slot]? = some key := by
      rw [Array.getElem?_toList, ← beq_iff_eq.1 hkey]
      exact Array.getElem?_eq_getElem hlt
    have hmem : key ∈ (h.record id).keys := by
      rw [← ht.keys_eq_keys hid]
      exact List.mem_of_getElem? hkey'
    have hnodup : (h.keys id).toList.Nodup := ht.nodup_keys _ hshaped.shape
    rw [record_eq hobject (ht.keys_of_growsTo hid hg hshape), Record.setProperty, if_pos hmem]
    dsimp only
    rw [Array.toList_setIfInBounds, zip_set hnodup hkey']
    rfl
  . rw [hset] at hexec
    cases hexec
  . rw [hset] at hexec
    cases hexec
  . rw [hset] at hexec
    cases hexec
    have hobjects : h₁.objects = (h.charged pointerSize).objects := objects_transition htransition
    have hobject : (h₁.addSlot id shape v).object id
        = { h.object id with shape := shape, slots := (h.object id).slots.push v } := by
      unfold Heap.addSlot
      rw [object_modifyObject (has_of_objects_eq hobjects hid), if_pos rfl, object_of_objects_eq hobjects]
      rfl
    have hnew : key ∉ h.keys id := by
      rw [← hasProperty_iff_mem_keys]
      unfold hasProperty
      rw [hslot]
      exact Bool.false_ne_true
    have hkeys : (h₁.addSlot id shape v).keys id = (h.keys id).push key := by
      have hsource : (h.charged pointerSize).HasShape (h.object id).shape := hshaped.shape
      obtain ⟨hg₁, -, hchild⟩ := (ht.charged pointerSize).growsTo_transition hsource hnew htransition
      unfold keys shapeOf
      rw [hobject]
      exact hchild.keys.trans (congrArg (·.push key) (hg₁.keeps.keys hsource))
    have hmem : key ∉ (h.record id).keys := by
      rw [← ht.keys_eq_keys hid, ← Array.mem_def]
      exact hnew
    have hsize : (h.keys id).toList.length = (h.object id).slots.toList.length := hshaped.slots.symm
    rw [record_eq hobject hkeys, Record.setProperty, if_neg hmem]
    dsimp only
    rw [Array.toList_push, Array.toList_push, List.zip_append hsize]
    rfl

/-- A place that is not among the old ones is the one that is written, or has no value yet. -/
theorem putElement_eq (elements : Array Value) (i : Nat) (v : Value)
    : putElement elements i v = Record.place elements i v := by
  have hsize : (putElement elements i v).size = max elements.size (i + 1) := by
    unfold putElement
    split
    . rw [Array.size_setIfInBounds]
      omega
    . rw [Array.size_push, Array.size_append, Array.size_replicate]
      omega
  unfold Record.place
  apply Array.ext
  . rw [hsize, Array.size_ofFn]
  . intro j hj _
    have hread : (putElement elements i v)[j]?.getD .undefined = _ := getD_putElement
    rw [Array.getElem?_eq_getElem hj, Option.getD_some] at hread
    rw [hread, Array.getElem_ofFn]

/-- A name that is bound once is the only one that is replaced. -/
theorem bind_of_findIdx? {bindings : Array Binding} {b : Binding} (hdistinct : Record.Distinct bindings)
    (hfind : bindings.findIdx? (fun b' => b'.name == b.name) = some i)
    : bindings.setIfInBounds i b = Record.bind bindings b := by
  obtain ⟨hi, hname, -⟩ := Array.findIdx?_eq_some_iff_getElem.1 hfind
  rw [beq_iff_eq] at hname
  unfold Record.bind
  rw [if_pos ⟨bindings[i], Array.getElem_mem hi, hname⟩]
  apply Array.ext
  . rw [Array.size_setIfInBounds, Array.size_map]
  . intro j hj _
    rw [Array.size_setIfInBounds] at hj
    rw [Array.getElem_setIfInBounds hj, Array.getElem_map]
    by_cases heq : i = j
    . subst heq
      rw [if_pos rfl, if_pos hname]
    . have hother : bindings[j].name ≠ b.name := by
        intro hname'
        exact heq (hdistinct.index_eq hi hj (hname.trans hname'.symm))
      rw [if_neg heq, if_neg hother]

theorem bind_of_findIdx?_eq_none {bindings : Array Binding} {b : Binding}
    (hfind : bindings.findIdx? (fun b' => b'.name == b.name) = none)
    : bindings.push b = Record.bind bindings b := by
  have hnew : ¬ ∃ b' ∈ bindings, b'.name = b.name := by
    rintro ⟨b', hmem, hname⟩
    have hne := Array.findIdx?_eq_none_iff.1 hfind b' hmem
    rw [hname, beq_self_eq_true] at hne
    cases hne
  unfold Record.bind
  rw [if_neg hnew]

theorem record_modifyContent (hid : h.Has id) (f : Content → Content)
    : (h.modifyContent id f).record id = { h.record id with content := f (h.content id) } := by
  have hobject := object_modifyObject hid id fun o => { o with content := f o.content }
  rw [if_pos rfl] at hobject
  apply record_eq (h := h.modifyContent id f) hobject
  unfold keys shapeOf modifyContent
  rw [hobject]
  rfl

theorem record_setElement (hid : h.Has id) (hset : exec (setElement id i v) h = (.ok (), h'))
    : h'.record id = (h.record id).setElement i v := by
  have hplace : (fun elements => putElement elements i v) = fun elements => Record.place elements i v :=
    funext fun elements => putElement_eq elements i v
  unfold Record.setElement
  rw [← hplace]
  rcases setElement_cases id i v h with ⟨hnone, hexec⟩ | ⟨size, -, -, hexec⟩ | ⟨size, e, -, -, hexec⟩ |
    ⟨size, -, -, -, hexec⟩
  . rw [hset] at hexec
    cases hexec
    have hsame : (h.content id).mapElements (fun elements => putElement elements i v) = h.content id := by
      unfold arraySize? at hnone
      cases hcontent : h.content id with
      | array elements =>
        rw [hcontent] at hnone
        cases hnone
      | _ => rfl
    exact congrArg (fun content => { h.record id with content := content }) hsame.symm
  . rw [hset] at hexec
    cases hexec
    exact record_modifyContent hid _
  . rw [hset] at hexec
    cases hexec
  . rw [hset] at hexec
    cases hexec
    exact record_modifyContent (h := h.charged (growth size i)) hid _

/-- The object binds no name twice. -/
def Distinct (h : Heap) (id : ObjectId) : Prop :=
  ∀ parent bindings, h.content id = .scope parent bindings → Record.Distinct bindings

theorem record_declare (hid : h.Has id) (hdistinct : h.Distinct id) {mutable : Bool}
    (hdeclare : exec (declare id name v mutable) h = (.ok (), h'))
    : h'.record id = (h.record id).declare ⟨name, v, mutable⟩ := by
  have hbind : ∀ {f : Array Binding → Array Binding},
      (∀ parent bindings, h.content id = .scope parent bindings →
        f bindings = Record.bind bindings ⟨name, v, mutable⟩) →
      (h.content id).mapBindings f = ((h.record id).declare ⟨name, v, mutable⟩).content := by
    intro f hf
    change _ = (h.content id).mapBindings _
    cases hcontent : h.content id with
    | scope parent bindings => exact congrArg (Content.scope parent) (hf parent bindings hcontent)
    | _ => rfl
  rcases declare_cases id name v mutable h with ⟨j, hj, hexec⟩ | ⟨-, -, hexec⟩ | ⟨hnone, -, hexec⟩
  . rw [hdeclare] at hexec
    cases hexec
    rw [putBinding, record_modifyContent hid, hbind]
    . rfl
    . intro parent bindings hcontent
      rw [bindingIndex?, hcontent] at hj
      exact bind_of_findIdx? (hdistinct parent bindings hcontent) hj
  . rw [hdeclare] at hexec
    cases hexec
  . rw [hdeclare] at hexec
    cases hexec
    have hid' : (h.charged pointerSize).Has id := hid
    rw [addBinding, record_modifyContent hid']
    change Record.mk ((h.content id).mapBindings _) _ = _
    rw [hbind]
    . rfl
    . intro parent bindings hcontent
      rw [bindingIndex?, hcontent] at hnone
      exact bind_of_findIdx?_eq_none hnone

/-- Also if a name is bound twice. -/
theorem properties_declare (hid : h.Has id) {mutable : Bool}
    (hdeclare : exec (declare id name v mutable) h = (.ok (), h'))
    : (h'.record id).properties = (h.record id).properties := by
  rcases declare_cases id name v mutable h with ⟨j, -, hexec⟩ | ⟨-, -, hexec⟩ | ⟨-, -, hexec⟩
  . rw [hdeclare] at hexec
    cases hexec
    rw [putBinding, record_modifyContent hid]
  . rw [hdeclare] at hexec
    cases hexec
  . rw [hdeclare] at hexec
    cases hexec
    have hid' : (h.charged pointerSize).Has id := hid
    rw [addBinding, record_modifyContent hid']
    rfl

theorem exec_allocate_of_result {content : Content} (hok : (Op.allocate content).result h = .ok ())
    : ∃ id, exec (allocate content) h = (.ok id, (Op.allocate content).apply h) := by
  have hresult : (exec (allocate content) h).1.map (fun _ => ()) = .ok () := hok
  rcases hexec : (exec (allocate content) h).1 with e | id
  . rw [hexec] at hresult
    cases hresult
  . exact ⟨id, Prod.ext hexec rfl⟩

/-- What an operation makes of the object that it is about, or of the new one. -/
def Op.Effect (h h' : Heap) : Op → Prop
  | allocate content =>
    exec (Heap.allocate content) h = (.ok ⟨h.objects.size⟩, h') ∧ h'.objects.size = h.objects.size + 1 ∧
      h'.content ⟨h.objects.size⟩ = content ∧ h'.keys ⟨h.objects.size⟩ = #[]
  | setProperty id key v =>
    h'.property? id key = some v ∧
      (∀ key', key' ≠ key → h'.property? id key' = h.property? id key') ∧
      h'.keys id = (if key ∈ h.keys id then h.keys id else (h.keys id).push key) ∧
      h'.content id = h.content id
  | setElement id index v =>
    (∀ elements, h.content id = .array elements →
        ∃ elements', h'.content id = .array elements' ∧
          elements'.size = max elements.size (index + 1) ∧
          elements'[index]? = some v ∧
          (∀ i < elements.size, i ≠ index → elements'[i]? = elements[i]?) ∧
          ∀ i, elements.size ≤ i → i < index → elements'[i]? = some .undefined) ∧
      ((∀ elements, h.content id ≠ .array elements) → h' = h) ∧
      h'.keys id = h.keys id ∧ ∀ key, h'.property? id key = h.property? id key
  | declare id name v mutable =>
    (∀ parent bindings, h.content id = .scope parent bindings → Record.Distinct bindings →
        h'.content id = .scope parent (Record.bind bindings ⟨name, v, mutable⟩) ∧
          Record.Distinct (Record.bind bindings ⟨name, v, mutable⟩)) ∧
      h'.keys id = h.keys id ∧ ∀ key, h'.property? id key = h.property? id key

theorem Tree.reads_of_properties (ht : h.Tree) (hid : h.Has id) (ht' : h'.Tree) (hid' : h'.Has id)
    (hproperties : (h'.record id).properties = (h.record id).properties)
    : h'.keys id = h.keys id ∧ ∀ key, h'.property? id key = h.property? id key := by
  constructor
  . apply Array.toList_inj.1
    rw [ht.keys_eq_keys hid, ht'.keys_eq_keys hid', Record.keys, hproperties]
    rfl
  . intro key
    rw [property?_eq_value?, property?_eq_value?, Record.value?, hproperties]
    rfl

theorem Tree.effect_allocate (ht : h.Tree) {content : Content} (ht' : h'.Tree)
    (hallocate : exec (allocate content) h = (.ok id, h'))
    : (Op.allocate content).Effect h h' := by
  have hid := has_allocated hallocate
  obtain ⟨rfl, hsize, hrecord⟩ := ht.record_allocate hallocate
  refine ⟨hallocate, hsize, congrArg Record.content hrecord, ?_⟩
  apply Array.toList_inj.1
  rw [ht'.keys_eq_keys hid, hrecord]
  rfl

section Target

variable (ht : h.Tree) (hid : h.Has id) (ht' : h'.Tree) (hid' : h'.Has id)
include ht hid ht' hid'

theorem Tree.effect_setProperty (hset : exec (setProperty id key v) h = (.ok (), h'))
    : (Op.setProperty id key v).Effect h h' := by
  have hrecord := ht.record_setProperty hid hset
  have hread : ∀ key', h'.property? id key' = if key' = key then some v else h.property? id key' := by
    intro key'
    rw [property?_eq_value?, hrecord, Record.value?_setProperty, ← property?_eq_value?]
  refine ⟨?_, ?_, ?_, congrArg Record.content hrecord⟩
  . rw [hread, if_pos rfl]
  . intro key' hne
    rw [hread, if_neg hne]
  . apply Array.toList_inj.1
    rw [ht'.keys_eq_keys hid', hrecord, Record.keys_setProperty, ← ht.keys_eq_keys hid]
    simp only [← Array.mem_def]
    split <;> simp

theorem Tree.effect_setElement (hset : exec (setElement id i v) h = (.ok (), h'))
    : (Op.setElement id i v).Effect h h' := by
  have hrecord := record_setElement hid hset
  have hproperties : (h'.record id).properties = (h.record id).properties := by
    rw [hrecord]
    rfl
  refine ⟨?_, ?_, ht.reads_of_properties hid ht' hid' hproperties⟩
  . intro elements hcontent
    refine ⟨Record.place elements i v, ?_, Record.size_place .., ?_, ?_, ?_⟩
    . have hcontent' : h'.content id = (h.content id).mapElements _ := congrArg Record.content hrecord
      rw [hcontent', hcontent]
      rfl
    . rw [Record.getElem?_place, if_pos (by omega), if_pos rfl]
    . intro j hj hne
      rw [Record.getElem?_place, if_pos (by omega), if_neg hne, Array.getElem?_eq_getElem hj]
      rfl
    . intro j hbeyond hj
      rw [Record.getElem?_place, if_pos (by omega), if_neg (by omega), Array.getElem?_eq_none hbeyond]
      rfl
  . intro hother
    rcases setElement_cases id i v h with ⟨-, hexec⟩ | ⟨size, hsize, -⟩ | ⟨size, -, hsize, -⟩ |
      ⟨size, hsize, -⟩
    . exact congrArg Prod.snd (hset.symm.trans hexec)
    all_goals
      obtain ⟨elements, hcontent, -⟩ := content_of_arraySize? hsize
      exact absurd hcontent (hother elements)

theorem Tree.effect_declare {mutable : Bool}
    (hdeclare : exec (declare id name v mutable) h = (.ok (), h'))
    : (Op.declare id name v mutable).Effect h h' := by
  refine ⟨?_, ht.reads_of_properties hid ht' hid' (properties_declare hid hdeclare)⟩
  intro parent bindings hcontent hdistinct
  have hdistinct' : h.Distinct id := by
    intro parent' bindings' hcontent'
    rw [hcontent] at hcontent'
    cases hcontent'
    exact hdistinct
  have hcontent' : h'.content id = (h.content id).mapBindings _ :=
    congrArg Record.content (record_declare hid hdistinct' hdeclare)
  rw [hcontent', hcontent]
  exact ⟨rfl, hdistinct.bind _⟩

end Target

theorem Tree.effect (ht : h.Tree) (hop : op.Targets h) (hok : op.result h = .ok ())
    : op.Effect h (op.apply h) := by
  have ht' := (ht.growsTo_apply hop).tree
  have hr := retains_apply op h
  cases op with
  | allocate content =>
    obtain ⟨id, hexec⟩ := exec_allocate_of_result hok
    exact ht.effect_allocate ht' hexec
  | setProperty id key v => exact ht.effect_setProperty hop ht' (hr.has hop) (Prod.ext hok rfl)
  | setElement id i v => exact ht.effect_setElement hop ht' (hr.has hop) (Prod.ext hok rfl)
  | declare id name v mutable => exact ht.effect_declare hop ht' (hr.has hop) (Prod.ext hok rfl)

/-! The heap and the store side by side. -/

theorem getElem?_records (h : Heap) (i : Nat)
    : h.records[i]? = if i < h.objects.size then some (h.record ⟨i⟩) else none := by
  unfold records
  rw [List.getElem?_map]
  split
  . next hi =>
    rw [List.getElem?_range hi]
    rfl
  . next hi =>
    have hlength : (List.range h.objects.size).length ≤ i := by
      rw [List.length_range]
      omega
    rw [List.getElem?_eq_none hlength]
    rfl

/-- Only an allocation makes an object. -/
theorem size_apply {target : ObjectId} (htarget : op.target? = some target)
    : (op.apply h).objects.size = h.objects.size := by
  have ha := after_apply op h
  have hle : ¬ (op.apply h).objects.size < h.objects.size := by
    intro hlt
    obtain ⟨o', ho', -⟩ := ha.old (Array.getElem?_eq_getElem hlt)
    exact Nat.lt_irrefl _ (Array.getElem?_eq_some_iff.1 ho').1
  have hge : ¬ h.objects.size < (op.apply h).objects.size := by
    intro hlt
    rcases ha.new (Array.getElem?_eq_getElem hlt) with hlt' | ⟨hop, -⟩
    . exact Nat.lt_irrefl _ hlt'
    . rw [hop] at htarget
      cases htarget
  omega

theorem Tree.records_apply (ht : h.Tree) (hop : op.Targets h) (hid : h.Has id)
    (htarget : op.target? = some id) {f : Record → Record}
    (hrecord : (op.apply h).record id = f (h.record id))
    : (op.apply h).records = h.records.modify id.index f := by
  apply List.ext_getElem?
  intro i
  rw [List.getElem?_modify, getElem?_records, getElem?_records, size_apply htarget]
  by_cases hi : i < h.objects.size
  . rw [if_pos hi, if_pos hi]
    by_cases heq : id.index = i
    . subst heq
      simp [hrecord]
    . have hne : op.target? ≠ some ⟨i⟩ := by
        rw [htarget]
        rintro ⟨rfl⟩
        exact heq rfl
      have hid' : h.Has ⟨i⟩ := hi
      simp [heq, ht.record_apply_of_ne hop hid' hne]
  . simp [hi]

/-- A heap does what a store does, if no name is bound twice where a name is bound. -/
theorem Tree.perform (ht : h.Tree) (hop : op.Targets h) (hok : op.result h = .ok ())
    (hdistinct : ∀ id name v mutable, op = .declare id name v mutable → h.Distinct id)
    : (op.apply h).records = op.perform h.records := by
  cases op with
  | allocate content =>
    obtain ⟨id, hexec⟩ := exec_allocate_of_result hok
    obtain ⟨rfl, hsize, hrecord⟩ := ht.record_allocate hexec
    have hold : ∀ i ∈ List.range h.objects.size,
        ((Op.allocate content).apply h).record ⟨i⟩ = h.record ⟨i⟩ := by
      intro i hi
      have hid : h.Has ⟨i⟩ := List.mem_range.1 hi
      exact ht.record_apply_of_ne hop hid nofun
    unfold records
    rw [hsize, List.range_succ, List.map_append, List.map_congr_left hold, List.map_singleton, hrecord]
    rfl
  | setProperty id key v =>
    exact ht.records_apply hop hop rfl (ht.record_setProperty hop (Prod.ext hok rfl))
  | setElement id i v => exact ht.records_apply hop hop rfl (record_setElement hop (Prod.ext hok rfl))
  | declare id name v mutable =>
    have hrecord := record_declare hop (hdistinct id name v mutable rfl) (Prod.ext hok rfl)
    exact ht.records_apply hop hop rfl hrecord

/--
An operation that succeeds does to the objects of a heap what it does to those of a store. All other objects
stay as they are, also those that share a shape with the one that it is about.
-/
theorem store_refined {limit : Nat} (hr : Runs Op.Targets (empty limit) h) (hop : op.Targets h)
    (hok : op.result h = .ok ())
    : op.Effect h (op.apply h) ∧
      (∀ id, h.Has id → op.target? ≠ some id →
        (op.apply h).content id = h.content id ∧ (op.apply h).keys id = h.keys id ∧
          ∀ key, (op.apply h).property? id key = h.property? id key) ∧
      ((∀ id name v mutable, op = .declare id name v mutable → h.Distinct id) →
        (op.apply h).records = op.perform h.records) := by
  have ht : h.Tree := ((tree_empty limit).growsTo_runs hr).tree
  refine ⟨ht.effect hop hok, ?_, ht.perform hop hok⟩
  intro id hid hne
  have hrecord := ht.record_apply_of_ne hop hid hne
  have hreads := ht.reads_of_properties hid (ht.growsTo_apply hop).tree ((retains_apply op h).has hid)
    (congrArg Record.properties hrecord)
  exact ⟨congrArg Record.content hrecord, hreads⟩

/-- One of two objects of the same shape gets another value, and the other one keeps its own. -/
theorem store_refined_pair
    : (pairHeap.property? ⟨0⟩ "x" = some .null ∧ pairHeap.property? ⟨1⟩ "x" = some .undefined)
      ∧ ((Op.setProperty ⟨0⟩ "x" (.bool true)).apply pairHeap).property? ⟨0⟩ "x" = some (.bool true)
      ∧ ((Op.setProperty ⟨0⟩ "x" (.bool true)).apply pairHeap).property? ⟨1⟩ "x" = some .undefined := by
  have hop : (Op.setProperty ⟨0⟩ "x" (.bool true)).Targets pairHeap := by decide +kernel
  have hok : (Op.setProperty ⟨0⟩ "x" (.bool true)).result pairHeap = .ok () := by decide +kernel
  have hreads : pairHeap.property? ⟨0⟩ "x" = some .null ∧ pairHeap.property? ⟨1⟩ "x" = some .undefined := by
    decide +kernel
  obtain ⟨heffect, hothers, -⟩ := store_refined runs_pairHeap hop hok
  refine ⟨hreads, heffect.1, ?_⟩
  exact ((hothers ⟨1⟩ (by decide +kernel) (by decide)).2.2 "x").trans hreads.2

end Heap
end ScriptHost
