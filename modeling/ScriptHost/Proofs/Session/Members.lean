import ScriptHost.Eval.Place
import ScriptHost.Proofs.Comparison.Rules
import ScriptHost.Proofs.Session.Apart
import ScriptHost.Proofs.Session.Display

/-!
This module contains the properties of objects as scripts see them: at every moment of a session, one value
for every object and text. A key that is a value stands for its text, also where it leads to an element on a
way of its own. What is stored is read again, and nothing else of any object changes, but for the length of
an array that has to grow.
-/

namespace ScriptHost

namespace Heap

variable {h h' : Heap} {id id' : ObjectId} {key key' : String} {v : Value} {i : Nat}

/-- The array has more elements than before. -/
def Grew (h h' : Heap) (id : ObjectId) : Prop :=
  ∃ size size', h.arraySize? id = some size ∧ h'.arraySize? id = some size' ∧ size < size'

theorem member_congr (hproperty : h'.property? id key = h.property? id key)
    (hcontent : h'.content id = h.content id) : h'.member id key = h.member id key := by
  unfold member
  rw [hproperty, hcontent]

/--
The second heap is the first one after the value was stored at the text: it is read there now, and nothing
else of any object has changed, but for the length of an array that had to grow.
-/
structure Stored (h h' : Heap) (id : ObjectId) (key : String) (v : Value) : Prop where
  value : h'.member id key = v
  rest {id' : ObjectId} {key' : String} (hid' : h.Has id') (hne : ¬ (id' = id ∧ key' = key))
    : h'.member id' key' = h.member id' key' ∨ (id' = id ∧ key' = "length" ∧ h.Grew h' id)

theorem Linked.stored_setProperty (hl : h.Linked) (hid : h.Has id)
    (hset : exec (setProperty id key v) h = (.ok (), h')) : Stored h h' id key v := by
  constructor
  . have hproperty := hl.property?_setProperty hid hid hset key
    rw [if_pos ⟨rfl, rfl⟩] at hproperty
    unfold member
    rw [hproperty]
  . intro id' key' hid' hne
    have hproperty := hl.property?_setProperty hid hid' hset key'
    rw [if_neg hne] at hproperty
    have hcontent : (exec (setProperty id key v) h).2.content id' = h.content id' := content_setProperty hid'
    rw [hset] at hcontent
    exact .inl (member_congr hproperty hcontent)

theorem member_element {elements : Array Value} (hproperty : h.property? id key = none)
    (hcontent : h.content id = .array elements) (hindex : arrayIndex? key = some i)
    : h.member id key = elements[i]?.getD .undefined := by
  have hlength : key ≠ "length" := by
    rintro rfl
    rw [arrayIndex?_length] at hindex
    cases hindex
  unfold member
  rw [hproperty, hcontent]
  simp only [builtinMember, if_neg hlength, hindex, Option.bind_some]

section

variable {elements : Array Value} (hcontent : h.content id = .array elements)
  (hcontent' : h'.content id = .array (putElement elements i v))
  (hproperty : ∀ key, h'.property? id key = h.property? id key)

include hcontent hcontent' hproperty

theorem Apart.member_putElement (ha : h.Apart) {j : Nat} (hindex : arrayIndex? key = some j)
    : h'.member id key = if j = i then v else h.member id key := by
  have hnone : h.property? id key = none :=
    ha id key (isArray_of_content hcontent) (by rw [hindex]; rfl)
  rw [member_element ((hproperty key).trans hnone) hcontent' hindex, getD_putElement,
    member_element hnone hcontent hindex]

/-- Only the length says that there are more elements. -/
theorem member_putElement_of_none (hindex : arrayIndex? key = none)
    : h'.member id key = h.member id key ∨ (key = "length" ∧ h.Grew h' id) := by
  by_cases hgrew : key = "length" ∧ elements.size ≤ i
  . have hsize := arraySize?_of_content hcontent'
    rw [size_putElement, if_neg (Nat.not_lt.2 hgrew.2)] at hsize
    exact .inr ⟨hgrew.1, _, _, arraySize?_of_content hcontent, hsize, Nat.lt_succ_of_le hgrew.2⟩
  . left
    unfold member
    rw [hproperty, hcontent, hcontent']
    simp only [builtinMember, hindex, Option.bind_none]
    by_cases hlength : key = "length"
    . have hlt : i < elements.size := Nat.not_le.1 fun hle => hgrew ⟨hlength, hle⟩
      rw [size_putElement, if_pos hlt]
    . rw [if_neg hlength, if_neg hlength]

end

/--
Setting an element by a text gives that text its value. An element behind the end makes the array longer,
which its length shows; no other text has another value.
-/
theorem Apart.stored_setElement (ha : h.Apart) (hid : h.Has id) (harray : h.isArray id)
    (hindex : arrayIndex? key = some i) (hset : exec (setElement id i v) h = (.ok (), h'))
    : Stored h h' id key v := by
  obtain ⟨elements, hcontent⟩ := content_of_isArray harray
  obtain ⟨hcontent', hproperty⟩ := setElement_done hset hid
  rw [if_pos rfl, hcontent] at hcontent'
  constructor
  . rw [ha.member_putElement hcontent hcontent' hproperty hindex, if_pos rfl]
  . intro id' key' hid' hne
    by_cases heq : id' = id
    . subst heq
      cases hindex' : arrayIndex? key' with
      | some j =>
        have hj : j ≠ i := by
          rintro rfl
          exact hne ⟨rfl, eq_of_arrayIndex? hindex hindex'⟩
        rw [ha.member_putElement hcontent hcontent' hproperty hindex', if_neg hj]
        exact .inl rfl
      | none =>
        exact (member_putElement_of_none hcontent hcontent' hproperty hindex').imp_right fun h => ⟨rfl, h⟩
    . obtain ⟨hcontent', hproperty⟩ := setElement_done hset hid'
      rw [if_neg heq] at hcontent'
      exact .inl (member_congr (hproperty key') hcontent')

end Heap

namespace Run

variable {α : Type} {s s' s₁ : Session} {env : Env} {loc : Location} {base key v w : Value} {id : ObjectId}
  {text : String} {n : Nat}

/-- A text is got without anything that happens, and that of a value which is no object is its own. -/
theorem display_done (hdone : display v env s = .done text s₁)
    : s₁ = s ∧ (v.object? = none → text = v.toText) := by
  rw [Session.display_eq] at hdone
  cases hdisplay : (s.displayContext env.config).display? [] v env.fuel with
  | none =>
    rw [hdisplay] at hdone
    cases hdone
  | some text' =>
    rw [hdisplay] at hdone
    cases hdone
    refine ⟨rfl, fun hv => ?_⟩
    cases hfuel : env.fuel with
    | zero =>
      rw [hfuel] at hdisplay
      cases hdisplay
    | succ fuel =>
      rw [hfuel] at hdisplay
      cases v with
      | object id => cases hv
      | _ =>
        cases hdisplay
        rfl

theorem heap_done {op : HeapM α} {a : α} (hdone : heap loc op env s = .done a s')
    : Heap.exec op s.heap = (.ok a, s'.heap) ∧ s' = s.withHeap s'.heap := by
  rw [heap_eq] at hdone
  split at hdone
  . next hexec =>
    cases hdone
    exact ⟨hexec, rfl⟩
  . cases hdone

/-- The text of a value that is the position of an element is the digits of the position. -/
theorem arrayIndex?_of_display (hkey : display key env s = .done text s₁)
    (hindex : elementIndex? key = some n)
    : arrayIndex? text = some n := by
  obtain ⟨htext, hnone, hlt⟩ := toText_of_elementIndex? hindex
  rw [(display_done hkey).2 hnone, htext]
  exact arrayIndex?_toString hlt

/-- Reading at a value is reading at its text, be the base an object or not. -/
theorem getIndex_eq (ha : s.heap.Apart) (hkey : display key env s = .done text s₁)
    : getIndex base key loc env s = getMember base text loc env s := by
  have htext : (do getMember base (← display key) loc) env s = getMember base text loc env s := by
    rw [bind_done hkey, (display_done hkey).1]
  unfold getIndex
  cases base with
  | object id =>
    cases hindex : elementIndex? key with
    | none => exact htext
    | some n =>
      dsimp only [Value.object?]
      rw [get_bind]
      cases hcontent : s.heap.content id with
      | array elements =>
        have hindex' := arrayIndex?_of_display hkey hindex
        have hown := ha id text (Heap.isArray_of_content hcontent) (by rw [hindex']; rfl)
        change Outcome.done _ s = .done (s.heap.member id text) s
        rw [Heap.member_element hown hcontent hindex']
      | _ => exact htext
  | _ => exact htext

/-- Storing at a value is storing at its text. -/
theorem setIndex_eq (hkey : display key env s = .done text s₁)
    : setIndex base key v loc env s = setMember base text v loc env s := by
  have htext : (do setMember base (← display key) v loc) env s = setMember base text v loc env s := by
    rw [bind_done hkey, (display_done hkey).1]
  unfold setIndex
  cases base with
  | object id =>
    cases hindex : elementIndex? key with
    | none => exact htext
    | some n =>
      dsimp only [Value.object?]
      rw [get_bind]
      cases harray : s.heap.isArray id with
      | false => exact htext
      | true =>
        unfold setMember
        dsimp only
        rw [get_bind, harray, arrayIndex?_of_display hkey hindex]
        rfl
  | _ => exact htext

theorem stored_setMember (ha : s.heap.Apart) (hl : s.heap.Linked) (hid : s.heap.Has id)
    (hset : setMember (.object id) text v loc env s = .done () s') : s.heap.Stored s'.heap id text v := by
  have hproperty (hset : heap loc (Heap.setProperty id text v) env s = .done () s')
      : s.heap.Stored s'.heap id text v :=
    hl.stored_setProperty hid (heap_done hset).1
  unfold setMember at hset
  dsimp only at hset
  rw [get_bind] at hset
  cases harray : s.heap.isArray id with
  | false =>
    rw [harray] at hset
    exact hproperty hset
  | true =>
    rw [harray] at hset
    cases hindex : arrayIndex? text with
    | none =>
      rw [hindex] at hset
      exact hproperty hset
    | some i =>
      rw [hindex] at hset
      exact ha.stored_setElement hid harray hindex (heap_done hset).1

end Run

namespace Session

variable {s : Session} {id : ObjectId}

/--
At every moment of a session, the properties of objects are one map from objects and texts to values.
Reading and storing at any value is reading and storing at its text, in the result and in the session after
it. After a value was stored at a text, it is read there, and every other object and every other text reads as
before, but for the length of an array that had to grow.
-/
theorem visited_property_map (hv : s.Visited) (hid : s.heap.Has id) (env : Env) (loc : Location)
    : (∀ key text s₁, Run.display key env s = .done text s₁ →
        (Place.element (.object id) key).read loc env s = (Place.property (.object id) text).read loc env s ∧
          ∀ v, (Place.element (.object id) key).write v loc env s
              = (Place.property (.object id) text).write v loc env s) ∧
      ∀ text v s', (Place.property (.object id) text).write v loc env s = .done () s' →
        (Place.property (.object id) text).read loc env s' = .done v s' ∧
          ∀ id' text', s.heap.Has id' → ¬ (id' = id ∧ text' = text) →
            ∃ w w', (Place.property (.object id') text').read loc env s = .done w s ∧
              (Place.property (.object id') text').read loc env s' = .done w' s' ∧
              (w' = w ∨ (id' = id ∧ text' = "length" ∧ s.heap.Grew s'.heap id)) := by
  have ha := hv.apart
  refine ⟨?_, ?_⟩
  . intro key text s₁ hkey
    exact ⟨Run.getIndex_eq ha hkey, fun v => Run.setIndex_eq hkey⟩
  . intro text v s' hset
    have hstored := Run.stored_setMember ha hv.wellFormed.linked.heap hid hset
    refine ⟨congrArg (Outcome.done · s') hstored.value, ?_⟩
    intro id' text' hid' hne
    exact ⟨_, _, rfl, rfl, hstored.rest hid' hne⟩

/--
A session in which a script has made an array without elements, the text of a number there, and the session
after a value was stored at that number.
-/
def lengthened? : Option (Session × String × Session) := do
  let (_, s) ← scripted? "var a = [];"
  match Run.display (.number (.zero true)) aloneEnv s with
  | .done text _ =>
    match (Place.element (.object ⟨12⟩) (.number (.zero true))).write .null {} aloneEnv s with
    | .done _ s' => some (s, text, s')
    | _ => none
  | _ => none

theorem lengthened_spec
    : ∃ p, lengthened? = some p ∧ p.2.1 = "0" ∧ p.1.heap.arraySize? ⟨12⟩ = some 0
        ∧ p.2.2.heap.arraySize? ⟨12⟩ = some 1 := by
  decide +kernel

theorem done_of_lengthened? {p : Session × String × Session} (hp : lengthened? = some p)
    : p.1.Visited ∧ (∃ s₁, Run.display (.number (.zero true)) aloneEnv p.1 = .done p.2.1 s₁) ∧
        (Place.element (.object ⟨12⟩) (.number (.zero true))).write .null {} aloneEnv p.1
          = .done () p.2.2 := by
  obtain ⟨⟨s₀, s⟩, hs, hrest⟩ := Option.bind_eq_some_iff.1 hp
  dsimp only at hrest
  split at hrest
  . next hkey =>
    split at hrest
    . next hset =>
      cases hrest
      exact ⟨visited_of_scripted? hs, ⟨_, hkey⟩, hset⟩
    . cases hrest
  . cases hrest

/-- Minus zero leads to the first element, and the array grows for it. The array itself is found as before. -/
theorem visited_property_map_lengthened
    : ∃ s s' id, s.Visited ∧ s.heap.Has id ∧ s.heap.Grew s'.heap id ∧
        (Place.element (.object id) (.number (.zero true))).write .null {} aloneEnv s = .done () s' ∧
        (Place.property (.object id) "0").read {} aloneEnv s' = .done .null s' ∧
        s'.heap.member s.global "a" = s.heap.member s.global "a" := by
  obtain ⟨⟨s, text, s'⟩, hp, htext, hsize, hsize'⟩ := lengthened_spec
  obtain ⟨hv, ⟨s₁, hkey⟩, hset⟩ := done_of_lengthened? hp
  dsimp only at htext hsize hsize' hv hkey hset
  subst htext
  have hid : s.heap.Has ⟨12⟩ := by
    obtain ⟨elements, hcontent, -⟩ := Heap.content_of_arraySize? hsize
    exact Heap.has_of_isArray (Heap.isArray_of_content hcontent)
  have hglobal := hv.wellFormed.linked.roots.global
  obtain ⟨hkeys, hstored⟩ := visited_property_map hv hid aloneEnv {}
  obtain ⟨-, hwrite⟩ := hkeys _ _ _ hkey
  obtain ⟨hread, hrest⟩ := hstored _ _ _ ((hwrite .null).symm.trans hset)
  obtain ⟨w, w', hw, hw', hsame⟩ := hrest s.global "a" hglobal (fun h => absurd h.2 (by decide))
  refine ⟨s, s', ⟨12⟩, hv, hid, ⟨0, 1, hsize, hsize', by decide⟩, hset, hread, ?_⟩
  rcases hsame with rfl | ⟨-, hlength, -⟩
  . exact (Outcome.done.inj hw').1.trans (Outcome.done.inj hw).1.symm
  . exact absurd hlength (by decide)

end Session
end ScriptHost
