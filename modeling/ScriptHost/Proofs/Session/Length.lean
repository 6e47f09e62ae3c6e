import ScriptHost.Proofs.Session.Continued
import ScriptHost.Proofs.Session.Members

/-!
This module contains where the values of properties come from. A property has the value that was stored last
in it. So the length of an array is the number of its elements as long as no script stores anything at that
text in it, and afterwards what was stored there last, however many elements there are.
-/

namespace ScriptHost

namespace Heap

variable {h : Heap} {id : ObjectId} {key : String} {v : Value}

/-- An operation leaves a property as it is unless it succeeds in storing a value in it. -/
theorem Linked.property?_apply_cases (hl : h.Linked) {op : Op} (hop : op.Names h) (id : ObjectId)
    (key : String)
    : (op.apply h).property? id key = h.property? id key ∨
      ∃ v, h.Has id ∧ exec (setProperty id key v) h = (.ok (), op.apply h) := by
  by_cases hid : h.Has id
  . by_cases hset : ∃ v, op = .setProperty id key v
    . obtain ⟨v, rfl⟩ := hset
      rcases hexec : exec (setProperty id key v) h with ⟨e | _, h'⟩
      . left
        change (exec (setProperty id key v) h).2.property? id key = _
        rw [hexec]
        exact property?_setProperty_failed hexec id key
      . have hok : (exec (setProperty id key v) h).1 = .ok () := by rw [hexec]
        exact .inr ⟨v, hid, Prod.ext hok rfl⟩
    . exact .inl (hl.property?_apply hop hid fun v heq => hset ⟨v, heq⟩)
  . left
    rw [property?_new hid, property?_of_not_has hid]

end Heap

namespace Session

variable {s s' s₀ t : Session} {id : ObjectId} {key : String} {v : Value} {config : Config}

/-- The value is stored at the text in the object. -/
def Stores (id : ObjectId) (key : String) (v : Value) (s s' : Session) : Prop :=
  s.heap.Has id ∧ Heap.exec (Heap.setProperty id key v) s.heap = (.ok (), s'.heap)

/-- The steps in which no value is stored at the text in the object. -/
abbrev Spares (id : ObjectId) (key : String) : Session → Session → Prop :=
  Relation.ReflTransGen fun s s' => Discipline.encapsulated.Step s s' ∧ ∀ v, ¬ Stores id key v s s'

theorem heap_of_step (hs : s.WellFormed) (hstep : Discipline.encapsulated.Step s s')
    : s'.heap = s.heap ∨ ∃ op : Heap.Op, op.Names s.heap ∧ s'.heap = op.apply s.heap := by
  have hnames : ∀ {op}, Discipline.encapsulated.Does s op → op.Names s.heap := fun hop =>
    Discipline.linked_names hs.linked ((Discipline.encapsulated_allows s).does hop)
  cases hstep with
  | change hc =>
    cases hc with
    | store hop => exact .inr ⟨_, hnames hop, rfl⟩
    | const hscope hfree hvalue => exact .inr ⟨_, hnames (.variable hvalue (.inl hfree)), rfl⟩
    | _ => exact .inl rfl
  | move => exact .inl rfl

theorem property?_of_step (hs : s.WellFormed) (hstep : Discipline.encapsulated.Step s s')
    (hspares : ∀ v, ¬ Stores id key v s s') : s'.heap.property? id key = s.heap.property? id key := by
  rcases heap_of_step hs hstep with heq | ⟨op, hop, heq⟩
  . rw [heq]
  . rcases hs.linked.heap.property?_apply_cases hop id key with hsame | ⟨v, hid, hexec⟩
    . rw [heq, hsame]
    . rw [← heq] at hexec
      exact absurd ⟨hid, hexec⟩ (hspares v)

/-- A property has the value that was stored last, or else the one that it had from the beginning. -/
theorem property?_of_proceeds (hs : s₀.WellFormed) (hp : Discipline.encapsulated.Proceeds s₀ t)
    (id : ObjectId) (key : String)
    : (Spares id key s₀ t ∧ t.heap.property? id key = s₀.heap.property? id key) ∨
      ∃ v s s', Discipline.encapsulated.Proceeds s₀ s ∧ Discipline.encapsulated.Step s s' ∧
        Stores id key v s s' ∧ Spares id key s' t ∧ t.heap.property? id key = some v := by
  classical
  induction hp with
  | refl => exact .inl ⟨.refl, rfl⟩
  | @tail s s' hp hstep ih =>
    have hw := wellFormed_of_proceeds hs hp
    by_cases hspares : ∀ v, ¬ Stores id key v s s'
    . have hsame := property?_of_step hw hstep hspares
      rcases ih with ⟨hold, hread⟩ | ⟨v, s₁, s₂, hp₁, hstep₁, hstores, hold, hread⟩
      . exact .inl ⟨hold.tail ⟨hstep, hspares⟩, hsame.trans hread⟩
      . exact .inr ⟨v, s₁, s₂, hp₁, hstep₁, hstores, hold.tail ⟨hstep, hspares⟩, hsame.trans hread⟩
    . obtain ⟨v, hstores⟩ := Classical.not_forall_not.1 hspares
      have hread := hw.linked.heap.property?_setProperty hstores.1 hstores.1 hstores.2 key
      rw [if_pos ⟨rfl, rfl⟩] at hread
      exact .inr ⟨v, s, s', hp, hstep, hstores, .refl, hread⟩

/--
At every moment of a session, what an array has as its length is the number of its elements if no step since
the beginning has stored a value at that text in it, and otherwise the value that was stored there last. No
other step makes a difference, be it for the elements of the array or for other properties of it.
-/
theorem later_array_length (hstart : Session.start config = .ok s₀) (hl : s₀.Later t)
    {elements : Array Value} (hcontent : t.heap.content id = .array elements)
    : (Spares id "length" s₀ t ∧ t.heap.member id "length" = .number (.ofNat elements.size)) ∨
      ∃ v s s', Discipline.encapsulated.Proceeds s₀ s ∧ Discipline.encapsulated.Step s s' ∧
        Stores id "length" v s s' ∧ Spares id "length" s' t ∧ t.heap.member id "length" = v := by
  have hs := wellFormed_start hstart
  have hp := (Reachable.start hstart).idle_encapsulated.proceeds_of_later hl
  have hid : ¬ s₀.heap.Has id := by
    intro hid
    have harray := (keeps_of_proceeds hs hp).heap.isArray hid
    rw [isArray_start hstart, Heap.isArray_of_content hcontent] at harray
    cases harray
  unfold Heap.member
  rcases property?_of_proceeds hs hp id "length" with
    ⟨hspares, hread⟩ | ⟨v, s, s', hp', hstep, hstores, hspares, hread⟩
  . rw [Heap.property?_of_not_has hid] at hread
    rw [hread, hcontent]
    exact .inl ⟨hspares, rfl⟩
  . rw [hread]
    exact .inr ⟨v, s, s', hp', hstep, hstores, hspares, rfl⟩

/-- A script that stores a length in an array and then adds elements to it. -/
theorem shadowed_spec
    : ∃ p, scripted? "var a = [1]; a.length = 2; a[5] = 0;" = some p ∧ p.2.heap.arraySize? ⟨12⟩ = some 6
        ∧ p.2.heap.member ⟨12⟩ "length" = .number (.ofNat 2) := by
  decide +kernel

/-- The array has six elements, and says that it has two because a step has stored that. -/
theorem later_array_length_shadowed
    : ∃ (s₀ t : Session) (id : ObjectId) (elements : Array Value), Session.start {} = .ok s₀ ∧ s₀.Later t ∧
        t.heap.content id = .array elements ∧ elements.size = 6 ∧
        ∃ s s', Discipline.encapsulated.Step s s' ∧ Stores id "length" (.number (.ofNat 2)) s s' ∧
          Spares id "length" s' t := by
  obtain ⟨⟨s₀, t⟩, hp, hsize, hread⟩ := shadowed_spec
  obtain ⟨hstart, hturn⟩ := turn_of_scripted? hp
  obtain ⟨elements, hcontent, hsix⟩ := Heap.content_of_arraySize? hsize
  have hl : s₀.Later t := .idle (.single hturn)
  refine ⟨s₀, t, ⟨12⟩, elements, hstart, hl, hcontent, hsix, ?_⟩
  rcases later_array_length hstart hl hcontent with ⟨-, hcount⟩ | ⟨v, s, s', -, hstep, hstores, hspares, hv⟩
  . rw [hread, hsix] at hcount
    exact absurd hcount (by decide +kernel)
  . rw [hread] at hv
    rw [hv]
    exact ⟨s, s', hstep, hstores, hspares⟩

/-- What a script stores at the length of an array stays there when the array grows. -/
theorem array_length_ne_size
    : ∃ (s : Session) (id : ObjectId) (elements : Array Value), s.Visited ∧
        s.heap.content id = .array elements ∧ elements.size = 6 ∧
        s.heap.member id "length" = .number (.ofNat 2) := by
  obtain ⟨⟨s₀, s⟩, hp, hsize, hread⟩ := shadowed_spec
  obtain ⟨elements, hcontent, hsix⟩ := Heap.content_of_arraySize? hsize
  exact ⟨s, ⟨12⟩, elements, visited_of_scripted? hp, hcontent, hsix, hread⟩

end Session
end ScriptHost
