import ScriptHost.Eval.Call
import ScriptHost.Proofs.Heap.Closures
import ScriptHost.Session.Failure
import ScriptHost.Session.Start

/-!
This module contains heaps under higher limits. An operation that succeeds does the same to a heap that has
more room, and leaves that room as it is.
-/

namespace ScriptHost.Heap

variable {α β : Type} {memory : Nat} {x : HeapM α} {f : α → HeapM β}

/-- The heap with room for so many bytes more. -/
def raised (h : Heap) (memory : Nat) : Heap :=
  { h with limit := h.limit + memory }

def Lifts (memory : Nat) (x : HeapM α) : Prop :=
  ∀ h a h', exec x h = (.ok a, h') → exec x (h.raised memory) = (.ok a, h'.raised memory)

theorem Lifts.bind (hx : Lifts memory x) (hf : ∀ a, Lifts memory (f a))
    : Lifts memory (x >>= f) := by
  intro h b h' hexec
  rcases hfirst : exec x h with ⟨e | a, h₁⟩
  . rw [exec_bind_error hfirst] at hexec
    cases hexec
  . rw [exec_bind_ok hfirst] at hexec
    rw [exec_bind_ok (hx h a h₁ hfirst)]
    exact hf a h₁ b h' hexec

theorem lifts_pure (a : α) : Lifts memory (pure a : HeapM α) := by
  intro h a' h' hexec
  cases hexec
  rfl

theorem lifts_modify {g : Heap → Heap} (hg : ∀ h, g (h.raised memory) = (g h).raised memory)
    : Lifts memory (modify g) := by
  intro h a h' hexec
  cases hexec
  exact congrArg (Prod.mk (Except.ok PUnit.unit)) (hg h)

/-- What looks at the heap does not look at its limit. -/
theorem lifts_get {g : Heap → HeapM α} (hg : ∀ h : Heap, g (h.raised memory) = g h)
    (hx : ∀ h, Lifts memory (g h))
    : Lifts memory (get >>= g) := by
  intro h a h' hexec
  rw [exec_bind_get] at hexec ⊢
  rw [hg h]
  exact hx h h a h' hexec

theorem lifts_charge (bytes : Nat) : Lifts memory (charge bytes) := by
  intro h a h' hexec
  by_cases hlimit : h.limit < h.used + bytes
  . rw [exec_charge_error hlimit] at hexec
    cases hexec
  . rw [Nat.not_lt] at hlimit
    rw [exec_charge_ok hlimit] at hexec
    cases hexec
    exact exec_charge_ok (Nat.le_add_right_of_le hlimit)

theorem lifts_takeStableId : Lifts memory takeStableId := by
  intro h a h' hexec
  cases hexec
  rfl

theorem lifts_newShape (family : ShapeFamily) (keys : Array String) (back : Option ShapeId)
    : Lifts memory (newShape family keys back) := by
  refine (lifts_charge _).bind fun _ => lifts_takeStableId.bind fun stableId => ?_
  intro h a h' hexec
  cases hexec
  rfl

theorem lifts_rootShape (family : ShapeFamily) : Lifts memory (rootShape family) := by
  refine lifts_get (fun _ => rfl) fun h => ?_
  cases h.rootShapes.lookup family with
  | some shape => exact lifts_pure shape
  | none =>
    refine (lifts_newShape _ _ _).bind fun shape => ?_
    exact (lifts_modify fun _ => rfl).bind fun _ => lifts_pure shape

theorem lifts_transition (source : ShapeId) (key : String) : Lifts memory (transition source key) := by
  refine lifts_get (fun _ => rfl) fun h => ?_
  dsimp only
  cases (h.shape source).transitions.find? fun t => t.1 == key with
  | some t => exact lifts_pure t.2
  | none =>
    refine (lifts_newShape _ _ _).bind fun target => ?_
    exact (lifts_modify fun _ => rfl).bind fun _ => lifts_pure target

theorem lifts_allocate (content : Content) : Lifts memory (allocate content) := by
  refine (lifts_charge _).bind fun _ => (lifts_rootShape _).bind fun shape => ?_
  refine lifts_takeStableId.bind fun stableId => ?_
  intro h a h' hexec
  cases hexec
  rfl

theorem lifts_setProperty (id : ObjectId) (key : String) (value : Value)
    : Lifts memory (setProperty id key value) := by
  refine lifts_get (fun _ => rfl) fun h => ?_
  dsimp only
  cases (h.shape (h.object id).shape).slot? key with
  | some slot => exact lifts_modify fun _ => rfl
  | none =>
    refine (lifts_charge _).bind fun _ => (lifts_transition _ _).bind fun target => ?_
    exact lifts_modify fun _ => rfl

theorem lifts_setElement (id : ObjectId) (index : Nat) (value : Value)
    : Lifts memory (setElement id index value) := by
  have hput : Lifts memory (modify fun h : Heap =>
      h.modifyContent id (.mapElements fun elements => putElement elements index value)) :=
    lifts_modify fun _ => rfl
  refine lifts_get (fun _ => rfl) fun h => ?_
  cases h.arraySize? id with
  | none => exact lifts_pure _
  | some size =>
    dsimp only
    split
    . split
      . -- so many bytes are refused under any limit
        intro h a h' hexec
        cases hexec
      . exact (lifts_charge _).bind fun _ => hput
    . exact hput

theorem lifts_declare (id : ObjectId) (name : String) (value : Value) (mutable : Bool)
    : Lifts memory (declare id name value mutable) := by
  refine lifts_get (fun _ => rfl) fun h => ?_
  cases h.bindingIndex? id name with
  | some i => exact lifts_modify fun _ => rfl
  | none => exact (lifts_charge _).bind fun _ => lifts_modify fun _ => rfl

theorem lifts_forM {as : List β} {g : β → HeapM PUnit} (hg : ∀ a ∈ as, Lifts memory (g a))
    : Lifts memory (as.forM g) := by
  induction as with
  | nil => exact lifts_pure _
  | cons a as ih =>
    refine (hg a List.mem_cons_self).bind fun _ => ?_
    exact ih fun a' ha' => hg a' (List.mem_cons_of_mem _ ha')

theorem lifts_newError (c : ErrorClass) (message : String) (trace : Option String)
    : Lifts memory (newError c message trace) := by
  refine (lifts_allocate _).bind fun id => (lifts_setProperty _ _ _).bind fun _ => ?_
  cases trace with
  | some trace => exact (lifts_setProperty _ _ _).bind fun _ => lifts_pure id
  | none => exact lifts_pure id

theorem lifts_newCallScope (callee : ObjectId) (f : Function) (parent : Option ObjectId)
    (args : List Value)
    : Lifts memory (newCallScope callee f parent args) := by
  have hparams : ∀ scope, Lifts memory (do
      let values := args ++ List.replicate (f.params.length - args.length) .undefined
      (f.params.zip values).forM fun p => declare scope p.1 p.2 true
      return scope) := by
    intro scope
    refine (lifts_forM fun p _ => ?_).bind fun _ => lifts_pure scope
    exact lifts_declare _ _ _ _
  refine (lifts_allocate _).bind fun scope => ?_
  cases f.name with
  | some name => exact (lifts_declare _ _ _ _).bind fun _ => hparams scope
  | none => exact hparams scope

theorem lifts_newGlobal : Lifts memory newGlobal := by
  refine (lifts_allocate _).bind fun id => Lifts.bind ?_ fun _ => ?_
  . refine lifts_forM fun builtin _ => (lifts_allocate _).bind fun f => ?_
    exact lifts_setProperty _ _ _
  . refine (lifts_setProperty _ _ _).bind fun _ => (lifts_setProperty _ _ _).bind fun _ => ?_
    exact lifts_pure id

/-! Sequences of operations keep what all their closures have in common. -/

variable {C : Function → ScriptId → Prop}

theorem Keeps.bind (hx : Keeps C x) (hf : ∀ a, Keeps C (f a)) : Keeps C (x >>= f) := by
  intro h hc
  have hx' := hx h hc
  rcases hfirst : exec x h with ⟨e | a, h₁⟩
  . rw [exec_bind_error hfirst]
    rwa [hfirst] at hx'
  . rw [exec_bind_ok hfirst]
    rw [hfirst] at hx'
    exact hf a h₁ hx'

theorem keeps_pure (a : α) : Keeps C (pure a : HeapM α) :=
  fun _ hc => hc

theorem keeps_forM {as : List β} {g : β → HeapM PUnit} (hg : ∀ a ∈ as, Keeps C (g a))
    : Keeps C (as.forM g) := by
  induction as with
  | nil => exact keeps_pure _
  | cons a as ih =>
    refine (hg a List.mem_cons_self).bind fun _ => ?_
    exact ih fun a' ha' => hg a' (List.mem_cons_of_mem _ ha')

theorem keeps_newError (c : ErrorClass) (message : String) (trace : Option String)
    : Keeps C (newError c message trace) := by
  refine (keeps_allocate (fun _ _ _ => nofun)).bind fun id => (keeps_setProperty _ _ _).bind fun _ => ?_
  cases trace with
  | some trace => exact (keeps_setProperty _ _ _).bind fun _ => keeps_pure id
  | none => exact keeps_pure id

theorem keeps_newCallScope (callee : ObjectId) (f : Function) (parent : Option ObjectId)
    (args : List Value)
    : Keeps C (newCallScope callee f parent args) := by
  have hparams : ∀ scope, Keeps C (do
      let values := args ++ List.replicate (f.params.length - args.length) .undefined
      (f.params.zip values).forM fun p => declare scope p.1 p.2 true
      return scope) := by
    intro scope
    refine (keeps_forM fun p _ => ?_).bind fun _ => keeps_pure scope
    exact keeps_declare _ _ _ _
  refine (keeps_allocate (fun _ _ _ => nofun)).bind fun scope => ?_
  cases f.name with
  | some name => exact (keeps_declare _ _ _ _).bind fun _ => hparams scope
  | none => exact hparams scope

end ScriptHost.Heap
