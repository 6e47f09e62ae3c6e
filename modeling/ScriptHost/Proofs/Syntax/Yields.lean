import ScriptHost.Proofs.Syntax.At
import ScriptHost.Proofs.Syntax.Gives

/-!
This module contains the rules for readers that stay within the tokens of a script and fail at a place of
theirs: what the results of such a reader have in common.
-/

namespace ScriptHost

namespace TokenStream

/-- Behind each token but one that marks the end stands another one. -/
class Ended (s : TokenStream) : Prop where
  succ_lt : ∀ i < s.tokens.size, (s.get i).kind ≠ .endOfInput → i + 1 < s.tokens.size

/-- The location of a token. -/
def Marks (s : TokenStream) (l : Location) : Prop :=
  ∃ i < s.tokens.size, l = (s.get i).loc

/-- A location from the start of one token to the end of another one, or to its own if that comes first. -/
def Spans (s : TokenStream) (l : Location) : Prop :=
  ∃ l₁ l₂, s.Marks l₁ ∧ s.Marks l₂ ∧ l = l₁.through l₂

theorem Marks.spans {s : TokenStream} {l : Location} (h : s.Marks l) : s.Spans l := by
  refine ⟨l, l, h, h, ?_⟩
  simp [Location.through, Location.endOffset]

end TokenStream

/-- From each token on, the reader stops at a token with a result that has the property, or fails at a place in the script. -/
def Yields {α : Type} (s : TokenStream) (x : Parser α) (Q : α → Prop) : Prop :=
  ∀ i < s.tokens.size,
    (∃ a j, x.at s i = .ok (a, j) ∧ j < s.tokens.size ∧ Q a) ∨ ∃ e, x.at s i = .error e ∧ s.Spans e.loc

/-- A reader whose results do not matter. -/
class Safe {α : Type} (s : TokenStream) (x : Parser α) : Prop where
  yields : Yields s x fun _ => True

namespace Yields

variable {α β : Type} {s : TokenStream} {x y : Parser α} {Q Q' : α → Prop} {R : β → Prop}

theorem bind {f : α → Parser β} (hx : Yields s x Q) (hf : ∀ a, Q a → Yields s (f a) R)
    : Yields s (x >>= f) R := by
  intro i hi
  rw [Parser.bind_at]
  rcases hx i hi with ⟨a, j, hok, hj, ha⟩ | ⟨e, herror, he⟩
  . rw [hok]
    exact hf a ha j hj
  . rw [herror]
    exact .inr ⟨e, rfl, he⟩

/-- A step whose result does not matter. -/
theorem after [hx : Safe s x] {f : α → Parser β} (hf : ∀ a, Yields s (f a) R) : Yields s (x >>= f) R :=
  hx.yields.bind fun a _ => hf a

theorem pure {a : α} (ha : Q a) : Yields s (pure a) Q :=
  fun i hi => .inl ⟨a, i, rfl, hi, ha⟩

theorem pure_bind {a : α} {f : α → Parser β} (hf : Yields s (f a) R) : Yields s (Pure.pure a >>= f) R :=
  hf

theorem fail {fault : SyntaxFault} {loc : Location} (hloc : s.Spans loc) : Yields s (Parser.fail fault loc) Q :=
  fun _ _ => .inr ⟨_, rfl, hloc⟩

theorem fail_bind {fault : SyntaxFault} {loc : Location} {f : α → Parser β} (hloc : s.Spans loc)
    : Yields s (Parser.fail fault loc >>= f) R :=
  fun _ _ => .inr ⟨_, rfl, hloc⟩

theorem mono (hx : Yields s x Q) (hQ : ∀ a, Q a → Q' a) : Yields s x Q' := by
  intro i hi
  rcases hx i hi with ⟨a, j, hok, hj, ha⟩ | herror
  . exact .inl ⟨a, j, hok, hj, hQ a ha⟩
  . exact .inr herror

/-- A result is one that the reader has at a token. -/
theorem self (hx : Yields s x Q) : Yields s x fun a => Q a ∧ ∃ i j, i < s.tokens.size ∧ x.at s i = .ok (a, j) := by
  intro i hi
  rcases hx i hi with ⟨a, j, hok, hj, ha⟩ | herror
  . exact .inl ⟨a, j, hok, hj, ha, i, j, hi, hok⟩
  . exact .inr herror

theorem map {f : α → β} (hx : Yields s x fun a => R (f a)) : Yields s (f <$> x) R :=
  hx.bind fun _ ha => pure ha

theorem ite {c : Prop} [Decidable c] (hx : Yields s x Q) (hy : Yields s y Q)
    : Yields s (if c then x else y) Q := by
  split
  . exact hx
  . exact hy

theorem peek : Yields s Parser.peek fun t => s.Marks t.loc :=
  fun i hi => .inl ⟨_, i, rfl, hi, i, hi, rfl⟩

theorem location : Yields s Parser.location s.Marks :=
  fun i hi => .inl ⟨_, i, rfl, hi, i, hi, rfl⟩

theorem previous : Yields s Parser.previous fun t => s.Marks t.loc :=
  fun i hi => .inl ⟨_, i, rfl, hi, i - 1, by omega, rfl⟩

theorem unexpected : Yields s Parser.unexpected Q :=
  peek.bind fun _ ht => fail ht.spans

end Yields

namespace Safe

variable {α β : Type} {s : TokenStream}

theorem of_look {x : Parser α} (g : Nat → α) (hx : ∀ i, x.at s i = .ok (g i, i)) : Safe s x :=
  ⟨fun i hi => .inl ⟨g i, i, hx i, hi, trivial⟩⟩

instance : Safe s Parser.peek := of_look _ fun _ => rfl
instance : Safe s Parser.peekSecond := of_look _ fun _ => rfl
instance : Safe s Parser.location := of_look _ fun _ => rfl
instance : Safe s Parser.atEnd := of_look _ fun _ => rfl
instance (kind : TokenKind) : Safe s (Parser.check kind) := of_look _ fun _ => rfl
instance (symbol : Symbol) : Safe s (Parser.checkSymbol symbol) := of_look _ fun _ => rfl
instance : Safe s Parser.lineBreakBefore := of_look _ fun _ => rfl
instance : Safe s Parser.remaining := of_look _ fun _ => rfl
instance : Safe s Grammar.atArrowFunction := of_look _ fun _ => Parser.atArrowFunction_at

instance {f : α → β} {x : Parser α} [h : Safe s x] : Safe s (f <$> x) where
  yields := .map h.yields

instance {x : Parser α} [h : Safe s x] : Safe s (discard x) where
  yields := .map h.yields

instance {a : α} : Safe s (pure a) where
  yields := .pure trivial

instance {x : Parser α} {f : α → Parser β} [Safe s x] [hf : ∀ a, Safe s (f a)] : Safe s (x >>= f) where
  yields := .after fun a => (hf a).yields

instance [h : s.Ended] : Safe s Parser.advance where
  yields := by
    intro i hi
    rw [Parser.advance_at]
    refine .inl ⟨_, _, rfl, ?_, trivial⟩
    split
    . exact hi
    . exact h.succ_lt i hi ‹_›

instance [s.Ended] (kind : TokenKind) : Safe s (Parser.accept kind) where
  yields := .after fun _ => .ite (.after fun _ => .pure trivial) (.pure trivial)

instance [s.Ended] (symbol : Symbol) : Safe s (Parser.acceptSymbol symbol) :=
  inferInstanceAs (Safe s (Parser.accept _))

instance [s.Ended] (word : Keyword) : Safe s (Parser.acceptKeyword word) :=
  inferInstanceAs (Safe s (Parser.accept _))

instance [s.Ended] (kind : TokenKind) : Safe s (Parser.expect kind) where
  yields := .after fun _ => .ite (.pure trivial) .unexpected

instance [s.Ended] (symbol : Symbol) : Safe s (Parser.expectSymbol symbol) :=
  inferInstanceAs (Safe s (Parser.expect _))

instance [s.Ended] (word : Keyword) : Safe s (Parser.expectKeyword word) :=
  inferInstanceAs (Safe s (Parser.expect _))

instance [s.Ended] : Safe s Parser.semicolon where
  yields := by
    refine .after fun found => .ite (.pure trivial) ?_
    exact .after fun brace => .after fun atEnd => .after fun newline => .ite (.pure trivial) .unexpected

instance [s.Ended] : Safe s Parser.name where
  yields := by
    refine .after fun t => ?_
    split
    . exact .after fun _ => .pure trivial
    . exact .unexpected

instance [s.Ended] : Safe s Parser.propertyName where
  yields := by
    refine .after fun t => ?_
    split
    . exact .after fun _ => .pure trivial
    . exact .after fun _ => .pure trivial
    . exact .unexpected

end Safe

namespace Yields

variable {α : Type} {s : TokenStream} {x : Parser α} {Q : α → Prop}

theorem many_go {more : Parser Bool} [Safe s more] (hx : Yields s x Q) (fuel : Nat) {acc : Array α}
    (hacc : ∀ a ∈ acc.toList, Q a)
    : Yields s (Parser.many.go more x fuel acc) fun as => ∀ a ∈ as, Q a := by
  induction fuel generalizing acc with
  | zero => exact pure hacc
  | succ fuel ih =>
    unfold Parser.many.go
    refine after fun b => ite ?_ (pure hacc)
    exact hx.bind fun a ha => ih (Gives.forall_mem_push hacc ha)

theorem many {more : Parser Bool} [Safe s more] (hx : Yields s x Q)
    : Yields s (Parser.many more x) fun as => ∀ a ∈ as, Q a :=
  after fun _ => many_go hx _ nofun

theorem commaSeparated [s.Ended] (hx : Yields s x Q) : Yields s (Parser.commaSeparated x) fun as => ∀ a ∈ as, Q a := by
  refine hx.bind fun a ha => (many hx).bind fun as has => pure ?_
  exact List.forall_mem_cons.2 ⟨ha, has⟩

theorem listUntil_go [s.Ended] {close : Symbol} (hx : Yields s x Q) (fuel : Nat) {acc : Array α}
    (hacc : ∀ a ∈ acc.toList, Q a)
    : Yields s (Parser.listUntil.go close x fuel acc) fun as => ∀ a ∈ as, Q a := by
  induction fuel generalizing acc with
  | zero => exact pure hacc
  | succ fuel ih =>
    unfold Parser.listUntil.go
    refine after fun b => ite (pure hacc) ?_
    refine hx.bind fun a ha => ?_
    have hpush := Gives.forall_mem_push hacc ha
    exact after fun b => ite (ih hpush) (pure hpush)

theorem listUntil [s.Ended] {close : Symbol} (hx : Yields s x Q)
    : Yields s (Parser.listUntil close x) fun as => ∀ a ∈ as, Q a :=
  after fun _ => listUntil_go hx _ nofun

/-- Nothing is nested where no level is left. -/
theorem nested {n : Nat} {rule : Grammar → Parser α}
    (hrule : ∀ m, n = m + 1 → Yields s (rule (Grammar.above (Grammar.ofLevels m))) Q)
    : Yields s (Grammar.nested (Grammar.ofLevels n) rule) Q := by
  cases n with
  | zero => exact location.bind fun _ hloc => fail hloc.spans
  | succ m => exact hrule m rfl

end Yields

namespace Safe

variable {s : TokenStream} [s.Ended]

instance : Safe s Grammar.inBlock where
  yields := .after fun _ => .ite (.pure trivial) (.after fun _ => .pure trivial)

instance : Safe s Grammar.handlerParam where
  yields := by
    refine .after fun paren => .ite ?_ (.pure trivial)
    exact .after fun name => .after fun _ => .pure trivial

instance : Safe s Grammar.propertyKey where
  yields := by
    refine .after fun t => ?_
    split
    . exact .after fun _ => .pure trivial
    . exact .after fun _ => .pure trivial
    . exact .after fun _ => .pure trivial
    . exact .after fun _ => .pure trivial

instance : Safe s Grammar.parameters where
  yields := by
    have hgo : ∀ fuel params, Yields s (Grammar.parameters.go fuel params) fun _ => True := by
      intro fuel
      induction fuel with
      | zero => exact fun params => .pure trivial
      | succ fuel ih =>
        intro params
        unfold Grammar.parameters.go
        refine Yields.location.bind fun loc hloc => .after fun param => .ite (.fail_bind hloc.spans) ?_
        exact .after fun comma => .ite (ih _) (.pure trivial)
    exact .after fun paren => .ite (.pure trivial) (.after fun fuel => hgo fuel [])

end Safe
end ScriptHost
