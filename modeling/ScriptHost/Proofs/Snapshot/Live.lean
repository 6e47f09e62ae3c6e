import ScriptHost.Proofs.Heap.Linked
import ScriptHost.Snapshot.Capture

/-!
This module contains what a snapshot has to depict: the live objects and shapes of a heap, the values they
hold, and the edges between all of these. The capture draws just these edges.
-/

namespace ScriptHost

/-- The roots are objects of the heap. -/
structure Roots.Over (r : Roots) (h : Heap) : Prop where
  global : h.Has r.global
  scopes : ∀ id ∈ r.scopes, h.Has id
  microtasks : ∀ v ∈ r.microtasks, h.HasValue v

def Oddball.value : Oddball → Value
  | undefined => .undefined
  | null => .null
  | true => .bool Bool.true
  | false => .bool Bool.false

namespace Snapshot

variable (h : Heap) (r : Roots)

/-- The objects that can be reached from the roots. -/
inductive LiveObject : ObjectId → Prop where
  | global : LiveObject r.global
  | stack {id : ObjectId} (hid : id ∈ r.scopes) : LiveObject id
  | microtask {id : ObjectId} (hid : .object id ∈ r.microtasks) : LiveObject id
  | value {a b : ObjectId} (ha : LiveObject a) (hb : .object b ∈ (h.object a).values) : LiveObject b
  | parent {a b : ObjectId} {bindings : Array Binding} (ha : LiveObject a)
    (hb : h.content a = .scope (some b) bindings)
    : LiveObject b
  | context {a : ObjectId} {f : Function} {scope : Option ObjectId} {script : ScriptId}
    (ha : LiveObject a) (hf : h.content a = .closure f scope script)
    : LiveObject (scope.getD r.global)

/-- The shapes that can be reached from the live objects. -/
inductive LiveShape : ShapeId → Prop where
  | map {a : ObjectId} (ha : LiveObject h r a) : LiveShape (h.object a).shape
  | back {a b : ShapeId} (ha : LiveShape a) (hb : (h.shape a).back = some b) : LiveShape b
  | transition {a : ShapeId} {t : String × ShapeId} (ha : LiveShape a)
    (ht : t ∈ (h.shape a).transitions)
    : LiveShape t.2

/-- The values that live objects hold or that wait as microtasks. -/
def Held (v : Value) : Prop :=
  v ∈ r.microtasks ∨ ∃ a, LiveObject h r a ∧ v ∈ (h.object a).values

/-- What a snapshot has a node for. -/
def Depicted : Entity → Prop
  | .root | .gcRoots | .stackRoots | .microtaskQueue => True
  | .object id => LiveObject h r id
  | .shape id => LiveShape h r id
  | .string s => Held h r (.string s)
  | .number x => x.isSmallInteger = false ∧ Held h r (.number x)
  | .oddball o => Held h r o.value
  | .code script name loc =>
    ∃ id f scope, LiveObject h r id ∧ h.content id = .closure f scope script ∧
      f.name = name ∧ f.loc = loc

/-- What a snapshot has an edge for, with the kind and the name of the edge. -/
inductive Points : Entity → EdgeKind → EdgeName → Entity → Prop where
  | gcRoots : Points .root .element (.index 0) .gcRoots
  | global : Points .root .shortcut (.index 1) (.object r.global)
  | stackRoots : Points .gcRoots .element (.index 0) .stackRoots
  | microtaskQueue : Points .gcRoots .element (.index 1) .microtaskQueue
  | stack {i : Nat} {id : ObjectId} (hid : r.scopes[i]? = some id)
    : Points .stackRoots .element (.index (.ofNat i)) (.object id)
  | microtask {i : Nat} {v : Value} {e : Entity} (hv : r.microtasks[i]? = some v)
    (he : Entity.ofValue? v = some e)
    : Points .microtaskQueue .element (.index (.ofNat i)) e
  | map {a : ObjectId} : Points (.object a) .internal (.named "map") (.shape (h.object a).shape)
  | property {a : ObjectId} {i : Nat} {key : String} {v : Value} {e : Entity}
    (hkey : (h.shapeOf a).keys[i]? = some key) (hv : (h.object a).slots[i]? = some v)
    (he : Entity.ofValue? v = some e)
    : Points (.object a) .property (.named key) e
  | element {a : ObjectId} {elements : Array Value} {i : UInt32} {v : Value} {e : Entity}
    (ha : h.content a = .array elements) (hv : elements[i.toNat]? = some v)
    (he : Entity.ofValue? v = some e)
    : Points (.object a) .element (.index i) e
  | binding {a : ObjectId} {parent : Option ObjectId} {bindings : Array Binding} {b : Binding}
    {e : Entity} (ha : h.content a = .scope parent bindings) (hb : b ∈ bindings)
    (he : Entity.ofValue? b.value = some e)
    : Points (.object a) .contextVariable (.named b.name) e
  | previous {a b : ObjectId} {bindings : Array Binding}
    (ha : h.content a = .scope (some b) bindings)
    : Points (.object a) .internal (.named "previous") (.object b)
  | context {a : ObjectId} {f : Function} {scope : Option ObjectId} {script : ScriptId}
    (ha : h.content a = .closure f scope script)
    : Points (.object a) .internal (.named "context") (.object (scope.getD r.global))
  | code {a : ObjectId} {f : Function} {scope : Option ObjectId} {script : ScriptId}
    (ha : h.content a = .closure f scope script)
    : Points (.object a) .internal (.named "code") (.code script f.name f.loc)
  | backPointer {a b : ShapeId} (hb : (h.shape a).back = some b)
    : Points (.shape a) .internal (.named "back_pointer") (.shape b)
  | transition {a : ShapeId} {t : String × ShapeId} (ht : t ∈ (h.shape a).transitions)
    : Points (.shape a) .weak (.named t.1) (.shape t.2)

variable {h r}

theorem mem_elementReferences_iff {values : List Value} {kind : EdgeKind} {name : EdgeName}
    {target : Entity}
    : ⟨kind, name, target⟩ ∈ elementReferences values
        ↔
      ∃ i v, values[i]? = some v ∧ Entity.ofValue? v = some target ∧ kind = .element ∧
        name = .index (.ofNat i) := by
  unfold elementReferences
  simp only [List.mem_filterMap, Prod.exists, List.mem_zipIdx_iff_getElem?, Option.map_eq_some_iff,
    Reference.mk.injEq]
  constructor
  . rintro ⟨v, i, hv, target', ht, rfl, rfl, rfl⟩
    exact ⟨i, v, hv, ht, rfl, rfl⟩
  . rintro ⟨i, v, hv, ht, rfl, rfl⟩
    exact ⟨v, i, hv, target, ht, rfl, rfl, rfl⟩

theorem mem_namedReferences_iff {values : List (String × Value)} {kind kind' : EdgeKind}
    {name : EdgeName} {target : Entity}
    : ⟨kind', name, target⟩ ∈ namedReferences kind values
        ↔
      ∃ key v, (key, v) ∈ values ∧ Entity.ofValue? v = some target ∧ kind' = kind ∧
        name = .named key := by
  unfold namedReferences
  simp only [List.mem_filterMap, Prod.exists, Option.map_eq_some_iff, Reference.mk.injEq]
  constructor
  . rintro ⟨key, v, hv, target', ht, rfl, rfl, rfl⟩
    exact ⟨key, v, hv, ht, rfl, rfl⟩
  . rintro ⟨key, v, hv, ht, rfl, rfl⟩
    exact ⟨key, v, hv, target, ht, rfl, rfl, rfl⟩

theorem mem_zip_toList_iff {keys : Array String} {values : Array Value} {key : String} {v : Value}
    : (key, v) ∈ keys.toList.zip values.toList
        ↔
      ∃ i : Nat, keys[i]? = some key ∧ values[i]? = some v := by
  rw [List.mem_iff_getElem?]
  simp only [List.getElem?_zip_eq_some, Array.getElem?_toList]

/-- Every array is so short that its indices can be told apart as names of edges. -/
def Indexable (h : Heap) : Prop :=
  ∀ id elements, h.content id = .array elements → elements.size ≤ UInt32.size

/-- An edge to an element, whose index may be too large for the name that it has. -/
def PointsElement (h : Heap) (e : Entity) (kind : EdgeKind) (name : EdgeName) (target : Entity) : Prop :=
  ∃ a elements i v, e = .object a ∧ h.content a = .array elements ∧ elements[i]? = some v ∧
    Entity.ofValue? v = some target ∧ kind = .element ∧ name = .index (.ofNat i)

theorem PointsElement.points (hh : Indexable h) {e : Entity} {kind : EdgeKind} {name : EdgeName}
    {target : Entity} (hp : PointsElement h e kind name target)
    : Points h r e kind name target := by
  obtain ⟨a, elements, i, v, rfl, ha, hv, ht, rfl, rfl⟩ := hp
  have hi : i < UInt32.size :=
    Nat.lt_of_lt_of_le (Array.getElem?_eq_some_iff.1 hv).1 (hh a elements ha)
  rw [← UInt32.toNat_ofNat_of_lt' hi] at hv
  exact .element ha hv ht

theorem Points.of_mem_contentReferences {a : ObjectId} {kind : EdgeKind} {name : EdgeName}
    {target : Entity} (hmem : ⟨kind, name, target⟩ ∈ contentReferences r (h.content a))
    : Points h r (.object a) kind name target ∨ PointsElement h (.object a) kind name target := by
  cases ha : h.content a with
  | array elements =>
    rw [ha] at hmem
    obtain ⟨i, v, hv, ht, rfl, rfl⟩ := mem_elementReferences_iff.1 hmem
    rw [Array.getElem?_toList] at hv
    exact .inr ⟨a, elements, i, v, rfl, ha, hv, ht, rfl, rfl⟩
  | closure f scope script =>
    left
    rw [ha] at hmem
    simp only [contentReferences, Snapshot.internal, List.mem_cons, Reference.mk.injEq, List.not_mem_nil,
      or_false] at hmem
    rcases hmem with ⟨rfl, rfl, rfl⟩ | ⟨rfl, rfl, rfl⟩
    . exact .context ha
    . exact .code ha
  | scope parent bindings =>
    left
    rw [ha] at hmem
    simp only [contentReferences, List.mem_append] at hmem
    rcases hmem with hmem | hmem
    . obtain ⟨key, v, hv, ht, rfl, rfl⟩ := mem_namedReferences_iff.1 hmem
      obtain ⟨b, hb, hbinding⟩ := List.mem_map.1 hv
      cases hbinding
      exact .binding ha (Array.mem_def.2 hb) ht
    . cases parent with
      | none => simp at hmem
      | some b =>
        simp only [Option.toList_some, List.map_cons, List.map_nil, List.mem_singleton,
          Snapshot.internal, Reference.mk.injEq] at hmem
        obtain ⟨rfl, rfl, rfl⟩ := hmem
        exact .previous ha
  | ordinary | global | native _ | error _ =>
    rw [ha] at hmem
    cases hmem

theorem Points.of_mem_objectReferences {a : ObjectId} {kind : EdgeKind} {name : EdgeName}
    {target : Entity} (hmem : ⟨kind, name, target⟩ ∈ objectReferences h r a)
    : Points h r (.object a) kind name target ∨ PointsElement h (.object a) kind name target := by
  simp only [objectReferences, List.mem_append, List.mem_cons] at hmem
  rcases hmem with (hmem | hmem) | hmem
  . cases hmem
    exact .inl .map
  . obtain ⟨key, v, hv, ht, rfl, rfl⟩ := mem_namedReferences_iff.1 hmem
    obtain ⟨i, hkey, hv⟩ := mem_zip_toList_iff.1 hv
    exact .inl (.property hkey hv ht)
  . exact Points.of_mem_contentReferences hmem

theorem Points.of_mem_shapeReferences {a : ShapeId} {kind : EdgeKind} {name : EdgeName}
    {target : Entity} (hmem : ⟨kind, name, target⟩ ∈ shapeReferences h a)
    : Points h r (.shape a) kind name target := by
  simp only [shapeReferences, List.mem_append, List.mem_map, Option.mem_toList, Snapshot.internal,
    Reference.mk.injEq, Array.mem_toList_iff] at hmem
  rcases hmem with ⟨b, hb, rfl, rfl, rfl⟩ | ⟨t, ht, rfl, rfl, rfl⟩
  . exact .backPointer hb
  . exact .transition ht

theorem Points.of_mem {e : Entity} {kind : EdgeKind} {name : EdgeName} {target : Entity}
    (hmem : ⟨kind, name, target⟩ ∈ references h r e)
    : Points h r e kind name target ∨ PointsElement h e kind name target := by
  cases e with
  | root =>
    simp only [references, List.mem_cons, Reference.mk.injEq, List.not_mem_nil, or_false] at hmem
    rcases hmem with ⟨rfl, rfl, rfl⟩ | ⟨rfl, rfl, rfl⟩
    . exact .inl .gcRoots
    . exact .inl .global
  | gcRoots =>
    simp only [references, List.mem_cons, Reference.mk.injEq, List.not_mem_nil, or_false] at hmem
    rcases hmem with ⟨rfl, rfl, rfl⟩ | ⟨rfl, rfl, rfl⟩
    . exact .inl .stackRoots
    . exact .inl .microtaskQueue
  | stackRoots =>
    simp only [references, List.mem_map, Prod.exists, List.mem_zipIdx_iff_getElem?,
      Reference.mk.injEq] at hmem
    obtain ⟨id, i, hid, rfl, rfl, rfl⟩ := hmem
    exact .inl (.stack hid)
  | microtaskQueue =>
    obtain ⟨i, v, hv, ht, rfl, rfl⟩ := mem_elementReferences_iff.1 hmem
    exact .inl (.microtask hv ht)
  | object a => exact Points.of_mem_objectReferences hmem
  | shape a => exact .inl (.of_mem_shapeReferences hmem)
  | string _ | number _ | oddball _ | code _ _ _ => cases hmem

theorem Points.mem {e : Entity} {kind : EdgeKind} {name : EdgeName} {target : Entity}
    (hp : Points h r e kind name target)
    : ⟨kind, name, target⟩ ∈ references h r e := by
  have hcontent : ∀ {a : ObjectId}, ⟨kind, name, target⟩ ∈ contentReferences r (h.content a) →
      ⟨kind, name, target⟩ ∈ references h r (.object a) :=
    fun hmem => List.mem_append_right _ hmem
  cases hp with
  | gcRoots => exact List.mem_cons_self
  | global => exact List.mem_cons_of_mem _ List.mem_cons_self
  | stackRoots => exact List.mem_cons_self
  | microtaskQueue => exact List.mem_cons_of_mem _ List.mem_cons_self
  | @stack i id hid => exact List.mem_map.2 ⟨(id, i), List.mem_zipIdx_iff_getElem?.2 hid, rfl⟩
  | microtask hv he => exact mem_elementReferences_iff.2 ⟨_, _, hv, he, rfl, rfl⟩
  | map => exact List.mem_cons_self
  | property hkey hv he =>
    apply List.mem_append_left
    apply List.mem_cons_of_mem
    exact mem_namedReferences_iff.2 ⟨_, _, mem_zip_toList_iff.2 ⟨_, hkey, hv⟩, he, rfl, rfl⟩
  | @element a elements i v _ ha hv he =>
    apply hcontent
    rw [ha]
    refine mem_elementReferences_iff.2 ⟨i.toNat, v, ?_, he, rfl, by rw [UInt32.ofNat_toNat]⟩
    rw [Array.getElem?_toList, hv]
  | binding ha hb he =>
    apply hcontent
    rw [ha]
    apply List.mem_append_left
    refine mem_namedReferences_iff.2 ⟨_, _, ?_, he, rfl, rfl⟩
    exact List.mem_map.2 ⟨_, Array.mem_def.1 hb, rfl⟩
  | previous ha =>
    apply hcontent
    rw [ha]
    exact List.mem_append_right _ List.mem_cons_self
  | context ha =>
    apply hcontent
    rw [ha]
    exact List.mem_cons_self
  | code ha =>
    apply hcontent
    rw [ha]
    exact List.mem_cons_of_mem _ List.mem_cons_self
  | backPointer hb =>
    apply List.mem_append_left
    exact List.mem_map.2 ⟨_, Option.mem_toList.2 hb, rfl⟩
  | transition ht =>
    apply List.mem_append_right
    exact List.mem_map.2 ⟨_, Array.mem_toList_iff.2 ht, rfl⟩

end Snapshot
end ScriptHost
