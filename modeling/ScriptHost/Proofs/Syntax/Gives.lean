import ScriptHost.Syntax.Script

/-!
This module contains the rules for what the results of readers have in common, whatever tokens they are
read from.
-/

namespace ScriptHost

/-- All results of the reader have the property. -/
def Gives {α : Type} (x : Parser α) (Q : α → Prop) : Prop :=
  ∀ s i a j, (x.run s).run i = .ok (a, j) → Q a

namespace Gives

variable {α β : Type} {x y : Parser α} {Q Q' : α → Prop} {R : β → Prop}

theorem bind {f : α → Parser β} (hx : Gives x Q) (hf : ∀ a, Q a → Gives (f a) R) : Gives (x >>= f) R := by
  intro s i b j hok
  have hbind : ((x >>= f).run s).run i = ((x.run s).run i).bind fun r => ((f r.1).run s).run r.2 := rfl
  rw [hbind] at hok
  cases hr : (x.run s).run i with
  | error fault =>
    rw [hr] at hok
    cases hok
  | ok r =>
    rw [hr] at hok
    exact hf r.1 (hx s i r.1 r.2 hr) s r.2 b j hok

/-- A step whose result does not matter. -/
theorem after {f : α → Parser β} (hf : ∀ a, Gives (f a) R) : Gives (x >>= f) R :=
  bind (Q := fun _ => True) (fun _ _ _ _ _ => trivial) fun a _ => hf a

theorem pure {a : α} (ha : Q a) : Gives (pure a) Q := by
  rintro s i a j ⟨⟩
  exact ha

theorem pure_bind {a : α} {f : α → Parser β} (hf : Gives (f a) R) : Gives (Pure.pure a >>= f) R :=
  bind (Q := (· = a)) (pure rfl) fun _ ha => ha ▸ hf

theorem fail {fault : SyntaxFault} {loc : Location} : Gives (Parser.fail fault loc) Q := by
  rintro s i a j ⟨⟩

theorem unexpected : Gives Parser.unexpected Q :=
  after fun _ => fail

theorem fail_bind {fault : SyntaxFault} {loc : Location} {f : α → Parser β}
    : Gives (Parser.fail fault loc >>= f) R :=
  bind (Q := fun _ => False) fail fun _ hfalse => hfalse.elim

theorem mono (hx : Gives x Q) (hQ : ∀ a, Q a → Q' a) : Gives x Q' :=
  fun s i a j hok => hQ a (hx s i a j hok)

theorem map {f : α → β} (hx : Gives x fun a => R (f a)) : Gives (f <$> x) R :=
  hx.bind fun _ ha => pure ha

theorem ite {c : Prop} [Decidable c] (hx : Gives x Q) (hy : Gives y Q) : Gives (if c then x else y) Q := by
  split
  . exact hx
  . exact hy

/-- A conditional whose condition matters for what its branches give. -/
theorem branch {c : Prop} [Decidable c] (hx : c → Gives x Q) (hy : ¬c → Gives y Q)
    : Gives (if c then x else y) Q := by
  split
  . next hc => exact hx hc
  . next hc => exact hy hc

theorem forall_mem_push {acc : Array α} {a : α} (hacc : ∀ a ∈ acc.toList, Q a) (ha : Q a)
    : ∀ a' ∈ (acc.push a).toList, Q a' := by
  rw [Array.toList_push]
  exact List.forall_mem_append.2 ⟨hacc, List.forall_mem_singleton.2 ha⟩

theorem many_go {more : Parser Bool} (hx : Gives x Q) (fuel : Nat) {acc : Array α}
    (hacc : ∀ a ∈ acc.toList, Q a)
    : Gives (Parser.many.go more x fuel acc) fun as => ∀ a ∈ as, Q a := by
  induction fuel generalizing acc with
  | zero => exact pure hacc
  | succ fuel ih =>
    unfold Parser.many.go
    refine after fun b => ite ?_ (pure hacc)
    exact hx.bind fun a ha => ih (forall_mem_push hacc ha)

theorem many {more : Parser Bool} (hx : Gives x Q) : Gives (Parser.many more x) fun as => ∀ a ∈ as, Q a :=
  after fun _ => many_go hx _ nofun

theorem commaSeparated (hx : Gives x Q) : Gives (Parser.commaSeparated x) fun as => ∀ a ∈ as, Q a := by
  refine hx.bind fun a ha => (many hx).bind fun as has => pure ?_
  exact List.forall_mem_cons.2 ⟨ha, has⟩

theorem listUntil_go {close : Symbol} (hx : Gives x Q) (fuel : Nat) {acc : Array α}
    (hacc : ∀ a ∈ acc.toList, Q a)
    : Gives (Parser.listUntil.go close x fuel acc) fun as => ∀ a ∈ as, Q a := by
  induction fuel generalizing acc with
  | zero => exact pure hacc
  | succ fuel ih =>
    unfold Parser.listUntil.go
    refine after fun b => ite (pure hacc) ?_
    refine hx.bind fun a ha => ?_
    have hpush := forall_mem_push hacc ha
    exact after fun b => ite (ih hpush) (pure hpush)

theorem listUntil {close : Symbol} (hx : Gives x Q)
    : Gives (Parser.listUntil close x) fun as => ∀ a ∈ as, Q a :=
  after fun _ => listUntil_go hx _ nofun

/-- Nothing is nested where no level is left. -/
theorem nested {n : Nat} {rule : Grammar → Parser α}
    (hrule : ∀ m, n = m + 1 → Gives (rule (Grammar.above (Grammar.ofLevels m))) Q)
    : Gives (Grammar.nested (Grammar.ofLevels n) rule) Q := by
  cases n with
  | zero => exact after fun _ => fail
  | succ m => exact hrule m rfl

end Gives
end ScriptHost
