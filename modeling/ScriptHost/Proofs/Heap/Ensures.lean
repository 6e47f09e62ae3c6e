import ScriptHost.Eval.Call
import ScriptHost.Proofs.Heap.Operation
import ScriptHost.Session.Start

/-!
This module contains the rules for sequences of operations on a heap: what every heap has to be that is
left behind, be it after a failure, and what holds of a result.
-/

namespace ScriptHost.Heap

variable {α β : Type} {R : Heap → Prop} {P : α → Heap → Prop} {Q : β → Heap → Prop} {h : Heap}

/-- The heap after a computation satisfies `R`, and its result satisfies `P` there if there is one. -/
def Ensures (R : Heap → Prop) (P : α → Heap → Prop) (op : HeapM α) (h : Heap) : Prop :=
  R (exec op h).2 ∧ ∀ a, (exec op h).1 = .ok a → P a (exec op h).2

theorem ensures_pure {a : α} (hR : R h) (ha : P a h) : Ensures R P (pure a) h := by
  refine ⟨hR, ?_⟩
  intro a' ha'
  cases ha'
  exact ha

theorem Ensures.bind {op : HeapM α} {f : α → HeapM β} (hop : Ensures R P op h)
    (hf : ∀ a h', R h' → P a h' → Ensures R Q (f a) h')
    : Ensures R Q (op >>= f) h := by
  obtain ⟨hR, hP⟩ := hop
  unfold Ensures
  rw [exec_bind]
  rcases hexec : exec op h with ⟨e | a, h'⟩
  . rw [hexec] at hR
    refine ⟨hR, ?_⟩
    intro b hb
    cases hb
  . rw [hexec] at hR hP
    exact hf a h' hR (hP a rfl)

theorem Ensures.mono {op : HeapM α} {P' : α → Heap → Prop} (hop : Ensures R P op h)
    (hP : ∀ a h', R h' → P a h' → P' a h')
    : Ensures R P' op h :=
  ⟨hop.1, fun a ha => hP a _ hop.1 (hop.2 a ha)⟩

/-- What holds before every turn of a loop holds after the last one. -/
theorem ensures_forM {J : Heap → Prop} {as : List α} {f : α → HeapM PUnit} (hR : R h) (hJ : J h)
    (hf : ∀ a ∈ as, ∀ h', R h' → J h' → Ensures R (fun _ => J) (f a) h')
    : Ensures R (fun _ => J) (as.forM f) h := by
  induction as generalizing h with
  | nil => exact ensures_pure hR hJ
  | cons a as ih =>
    apply (hf a List.mem_cons_self h hR hJ).bind
    intro _ h' hR' hJ'
    exact ih hR' hJ' fun a' ha' => hf a' (List.mem_cons_of_mem _ ha')

/-- An error object is made and gets its texts as properties. -/
theorem ensures_newError {P : ObjectId → Heap → Prop} {c : ErrorClass} {message : String}
    {trace : Option String} (hallocate : Ensures R P (allocate (.error c)) h)
    (hset : ∀ id h', R h' → P id h' → ∀ key text,
      Ensures R (fun _ => P id) (setProperty id key (.string text)) h')
    : Ensures R P (newError c message trace) h := by
  apply hallocate.bind
  intro id h₁ hR₁ hid₁
  apply (hset id h₁ hR₁ hid₁ _ _).bind
  intro _ h₂ hR₂ hid₂
  cases trace with
  | none => exact ensures_pure hR₂ hid₂
  | some trace =>
    apply (hset id h₂ hR₂ hid₂ _ _).bind
    intro _ h₃ hR₃ hid₃
    exact ensures_pure hR₃ hid₃

/-- A scope is made and gets the name and the parameters of a function as bindings. -/
theorem ensures_newCallScope {P : ObjectId → Heap → Prop} {V : Value → Prop} {callee : ObjectId}
    {f : Function} {parent : Option ObjectId} {args : List Value}
    (hallocate : Ensures R P (allocate (.scope parent #[])) h)
    (hdeclare : ∀ id h', R h' → P id h' → ∀ name v, V v →
      Ensures R (fun _ => P id) (declare id name v true) h')
    (hcallee : V (.object callee)) (hargs : ∀ v ∈ args, V v) (hundefined : V .undefined)
    : Ensures R P (newCallScope callee f parent args) h := by
  apply hallocate.bind
  intro scope h₁ hR₁ hscope₁
  have hparams : ∀ h₂, R h₂ → P scope h₂ → Ensures R P (do
      let values := args ++ List.replicate (f.params.length - args.length) .undefined
      (f.params.zip values).forM fun p => declare scope p.1 p.2 true
      return scope) h₂ := by
    intro h₂ hR₂ hscope₂
    refine Ensures.bind (P := fun _ => P scope) ?_ ?_
    . apply ensures_forM hR₂ hscope₂
      intro p hp h₃ hR₃ hscope₃
      apply hdeclare scope h₃ hR₃ hscope₃
      rcases List.mem_append.1 (List.of_mem_zip hp).2 with hv | hv
      . exact hargs _ hv
      . rw [List.eq_of_mem_replicate hv]
        exact hundefined
    . intro _ h₃ hR₃ hscope₃
      exact ensures_pure hR₃ hscope₃
  cases f.name with
  | none =>
    dsimp only
    exact hparams h₁ hR₁ hscope₁
  | some name =>
    dsimp only
    apply (hdeclare scope h₁ hR₁ hscope₁ name _ hcallee).bind
    intro _ h₂ hR₂ hscope₂
    exact hparams h₂ hR₂ hscope₂

/-- The global object is made and gets the functions of the host and two numbers as properties. -/
theorem ensures_newGlobal {P : ObjectId → Heap → Prop} {V : Value → Heap → Prop}
    (hallocate : Ensures R P (allocate .global) h)
    (hnative : ∀ id h', R h' → P id h' → ∀ builtin,
      Ensures R (fun f h'' => P id h'' ∧ V (.object f) h'') (allocate (.native builtin)) h')
    (hset : ∀ id h', R h' → P id h' → ∀ key v, V v h' →
      Ensures R (fun _ => P id) (setProperty id key v) h')
    (hnumber : ∀ x h', V (.number x) h')
    : Ensures R P newGlobal h := by
  apply hallocate.bind
  intro id h₁ hR₁ hid₁
  refine Ensures.bind (P := fun _ => P id) ?_ ?_
  . apply ensures_forM hR₁ hid₁
    intro builtin _ h₂ hR₂ hid₂
    apply (hnative id h₂ hR₂ hid₂ builtin).bind
    intro f h₃ hR₃ hf₃
    exact hset id h₃ hR₃ hf₃.1 _ _ hf₃.2
  . intro _ h₂ hR₂ hid₂
    apply (hset id h₂ hR₂ hid₂ _ _ (hnumber _ _)).bind
    intro _ h₃ hR₃ hid₃
    apply (hset id h₃ hR₃ hid₃ _ _ (hnumber _ _)).bind
    intro _ h₄ hR₄ hid₄
    exact ensures_pure hR₄ hid₄

end ScriptHost.Heap
