import ScriptHost.Proofs.Heap.Run

/-!
This module contains what a failed operation leaves behind. The bytes that it has charged before the
charge that fails stay charged, and nothing else changes.
-/

namespace ScriptHost

theorem Content.size_pos (c : Content) : 0 < c.size := by
  cases c <;> simp +decide only [Content.size] <;> apply Nat.add_pos_left <;> decide

namespace Heap

variable {h : Heap} {op : Op} {e : OutOfMemory} {bytes : Nat}

/-- The charges for a shape, which is made unless there is one. -/
def shapeCharges (known : Bool) : List Nat :=
  if known then [] else [shapeSize]

namespace Op

/-- Whether an operation succeeds, and how it fails if it does not. -/
def result (h : Heap) : Op → Except OutOfMemory Unit
  | allocate content => (exec (Heap.allocate content) h).1.map fun _ => ()
  | setProperty id key value => (exec (Heap.setProperty id key value) h).1
  | setElement id index value => (exec (Heap.setElement id index value) h).1
  | declare id name value mutable => (exec (Heap.declare id name value mutable) h).1

/--
What an operation charges, in this order: the bytes of an object, a slot, some elements or a binding, and
then those of the shape that an object or a slot needs.
-/
def charges (h : Heap) : Op → List Nat
  | allocate content =>
    content.size :: shapeCharges (h.rootShapes.lookup content.family).isSome
  | setProperty id key _ =>
    if h.hasProperty id key then []
    else pointerSize :: shapeCharges ((h.shapeOf id).transitions.find? fun t => t.1 == key).isSome
  | setElement id index _ =>
    match h.arraySize? id with
    | some size => if size ≤ index then [growth size index] else []
    | none => []
  | declare id name _ _ => if (h.bindingIndex? id name).isSome then [] else [pointerSize]

/-- What a failed operation has charged: the bytes of an object or a slot, if they fit. -/
def wasted (h : Heap) (op : Op) : Nat :=
  match op.charges h with
  | [bytes, _] => if h.used + bytes ≤ h.limit then bytes else 0
  | _ => 0

end Op

theorem charged_eq_self : h.charged bytes = h ↔ bytes = 0 := by
  constructor
  . intro heq
    have hused : h.used + bytes = h.used := congrArg used heq
    omega
  . rintro rfl
    rfl

/-- An operation fails at its first charge, or at the one for a shape. -/
inductive Failed (h : Heap) (op : Op) : Prop where
  | first (hcharges : ∀ bytes shape, op.charges h = [bytes, shape] → h.limit < h.used + bytes)
      (happly : op.apply h = h)
  | shape {bytes : Nat} (hbytes : 0 < bytes) (hcharges : op.charges h = [bytes, shapeSize])
      (hlimit : h.used + bytes ≤ h.limit) (happly : op.apply h = h.charged bytes)

theorem lookup_of_rootShape_error {family : ShapeFamily} {h' : Heap}
    (hroot : exec (rootShape family) h = (.error e, h'))
    : h.rootShapes.lookup family = none := by
  rcases rootShape_cases family h with ⟨shape, -, hexec⟩ | ⟨hlookup, -, -⟩ | ⟨hlookup, -, -⟩
  . rw [hroot] at hexec
    cases hexec
  . exact hlookup
  . exact hlookup

theorem find?_of_transition_error {source : ShapeId} {key : String} {h' : Heap}
    (htransition : exec (transition source key) h = (.error e, h'))
    : (h.shape source).transitions.find? (fun t => t.1 == key) = none := by
  rcases transition_cases source key h with ⟨t, -, hexec⟩ | ⟨hfind, -, -⟩ | ⟨hfind, -, -⟩
  . rw [htransition] at hexec
    cases hexec
  . exact hfind
  . exact hfind

theorem failed_allocate {content : Content} (hfail : (Op.allocate content).result h = .error e)
    : Failed h (.allocate content) := by
  rcases allocate_cases content h with ⟨hlimit, hexec⟩ | ⟨e', hlimit, hroot, hexec⟩ |
    ⟨shape, h₁, -, -, hexec⟩
  . refine .first ?_ (congrArg Prod.snd hexec)
    intro bytes shape hcharges
    cases (List.cons.inj hcharges).1
    exact hlimit
  . have hnew : h.rootShapes.lookup content.family = none :=
      lookup_of_rootShape_error (h := h.charged content.size) hroot
    refine .shape content.size_pos ?_ hlimit (congrArg Prod.snd hexec)
    rw [Op.charges, hnew]
    rfl
  . rw [Op.result, hexec] at hfail
    cases hfail

theorem failed_setProperty {id : ObjectId} {key : String} {value : Value}
    (hfail : (Op.setProperty id key value).result h = .error e)
    : Failed h (.setProperty id key value) := by
  rcases setProperty_cases id key value h with ⟨slot, -, hexec⟩ | ⟨hslot, hlimit, hexec⟩ |
    ⟨e', hslot, hlimit, htransition, hexec⟩ | ⟨shape, h₁, -, -, -, hexec⟩
  . rw [Op.result, hexec] at hfail
    cases hfail
  . refine .first ?_ (congrArg Prod.snd hexec)
    intro bytes shape hcharges
    rw [Op.charges, hasProperty, hslot] at hcharges
    cases (List.cons.inj hcharges).1
    exact hlimit
  . have hnew : (h.shapeOf id).transitions.find? (fun t => t.1 == key) = none :=
      find?_of_transition_error (h := h.charged pointerSize) htransition
    refine .shape (by decide) ?_ hlimit (congrArg Prod.snd hexec)
    rw [Op.charges, hasProperty, hslot, hnew]
    rfl
  . rw [Op.result, hexec] at hfail
    cases hfail

theorem failed_setElement {id : ObjectId} {index : Nat} {value : Value}
    (hfail : (Op.setElement id index value).result h = .error e)
    : Failed h (.setElement id index value) := by
  rcases setElement_cases id index value h with ⟨-, hexec⟩ | ⟨size, -, -, hexec⟩ |
    ⟨size, e', hsize, hindex, hexec⟩ | ⟨size, -, -, -, hexec⟩
  . rw [Op.result, hexec] at hfail
    cases hfail
  . rw [Op.result, hexec] at hfail
    cases hfail
  . refine .first ?_ (congrArg Prod.snd hexec)
    intro bytes shape hcharges
    simp [Op.charges, hsize, hindex] at hcharges
  . rw [Op.result, hexec] at hfail
    cases hfail

theorem failed_declare {id : ObjectId} {name : String} {value : Value} {mutable : Bool}
    (hfail : (Op.declare id name value mutable).result h = .error e)
    : Failed h (.declare id name value mutable) := by
  rcases declare_cases id name value mutable h with ⟨i, -, hexec⟩ | ⟨hindex, -, hexec⟩ |
    ⟨-, -, hexec⟩
  . rw [Op.result, hexec] at hfail
    cases hfail
  . refine .first ?_ (congrArg Prod.snd hexec)
    intro bytes shape hcharges
    simp [Op.charges, hindex] at hcharges
  . rw [Op.result, hexec] at hfail
    cases hfail

theorem failed_of_result_error (hfail : op.result h = .error e) : Failed h op := by
  cases op with
  | allocate content => exact failed_allocate hfail
  | setProperty id key value => exact failed_setProperty hfail
  | setElement id index value => exact failed_setElement hfail
  | declare id name value mutable => exact failed_declare hfail

theorem Failed.apply (hf : Failed h op) : op.apply h = h.charged (op.wasted h) := by
  cases hf with
  | first hcharges happly =>
    have hwasted : op.wasted h = 0 := by
      unfold Op.wasted
      split
      . next bytes shape heq => rw [if_neg (Nat.not_le.2 (hcharges bytes shape heq))]
      . rfl
    rw [happly, hwasted]
    rfl
  | shape _ hcharges hlimit happly =>
    rw [happly, Op.wasted, hcharges]
    dsimp only
    rw [if_pos hlimit]

/--
A failed operation leaves the heap as it was but for the bytes that it wastes. It wastes none unless there
is room for an object or a slot and none for the shape that it needs as well.
-/
theorem failed_apply (hfail : op.result h = .error e)
    : op.apply h = h.charged (op.wasted h)
        ∧ (op.apply h = h
            ↔ ∀ bytes shape, op.charges h = [bytes, shape] → h.limit < h.used + bytes) := by
  have hf := failed_of_result_error hfail
  refine ⟨hf.apply, ?_⟩
  cases hf with
  | first hcharges happly => exact ⟨fun _ => hcharges, fun _ => happly⟩
  | shape hbytes hcharges hlimit happly =>
    rw [happly, charged_eq_self]
    constructor
    . intro hzero
      omega
    . intro hfull
      have := hfull _ _ hcharges
      omega

/-- There is no room for an object in twenty bytes, so that none of them are wasted on it. -/
theorem failed_apply_twenty
    : (Op.allocate .ordinary).result (empty 20) = .error ⟨24, 0, 20⟩
        ∧ (Op.allocate .ordinary).apply (empty 20) = empty 20 := by
  have hfail : (Op.allocate .ordinary).result (empty 20) = .error ⟨24, 0, 20⟩ := rfl
  refine ⟨hfail, (failed_apply hfail).2.2 ?_⟩
  intro bytes shape hcharges
  cases hcharges
  decide

/-- In a hundred bytes there is room for an object and not for its shape. -/
theorem allocate_wastes
    : Built 100 (empty 100)
        ∧ (Op.allocate .ordinary).Names (empty 100)
        ∧ (Op.allocate .ordinary).result (empty 100) = .error ⟨80, 24, 100⟩
        ∧ (Op.allocate .ordinary).apply (empty 100) = (empty 100).charged 24
        ∧ (Op.allocate .ordinary).apply (empty 100) ≠ empty 100 := by
  have happly : (Op.allocate .ordinary).apply (empty 100) = (empty 100).charged 24 := rfl
  refine ⟨.refl, by decide, rfl, happly, ?_⟩
  rw [happly, Ne, charged_eq_self]
  decide

end Heap
end ScriptHost
