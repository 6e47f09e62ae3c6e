import ScriptHost.Proofs.Syntax.At

/-!
This module contains how many tokens a reader takes at least: none goes back, and what is read in a loop
takes one.
-/

namespace ScriptHost

/-- From a position on, all results of the reader come with at least `n` more tokens. -/
def Advances {α : Type} (s : TokenStream) (i n : Nat) (x : Parser α) : Prop :=
  ∀ a j, x.at s i = .ok (a, j) → i + n ≤ j

/-- A reader that takes at least `n` tokens wherever it has a result. -/
class Takes {α : Type} (n : Nat) (x : Parser α) : Prop where
  advances : ∀ {s i}, Advances s i n x

theorem Parser.bind_eq_ok {α β : Type} {x : Parser α} {f : α → Parser β} {s : TokenStream} {i j : Nat}
    {b : β} (h : (x >>= f).at s i = .ok (b, j))
    : ∃ a k, x.at s i = .ok (a, k) ∧ (f a).at s k = .ok (b, j) := by
  rw [Parser.bind_at] at h
  cases hx : x.at s i with
  | error e =>
    rw [hx] at h
    cases h
  | ok r =>
    rw [hx] at h
    exact ⟨r.1, r.2, rfl, h⟩

namespace Takes

variable {α β : Type} {n : Nat} {x y : Parser α}

theorem of_one (h : Takes 1 x) : Takes 0 x where
  advances a j hok := Nat.le_of_lt (h.advances a j hok)

theorem after [hx : Takes 0 x] {f : α → Parser β} (hf : ∀ a, Takes n (f a)) : Takes n (x >>= f) where
  advances b j hok := by
    obtain ⟨a, k, ha, hb⟩ := Parser.bind_eq_ok hok
    have := hx.advances a k ha
    have := (hf a).advances b j hb
    omega

theorem ite {c : Prop} [Decidable c] (hx : Takes n x) (hy : Takes n y) : Takes n (if c then x else y) := by
  split
  . exact hx
  . exact hy

theorem fail {fault : SyntaxFault} {loc : Location} : Takes n (Parser.fail fault loc : Parser α) where
  advances := nofun

theorem fail_bind {fault : SyntaxFault} {loc : Location} {f : α → Parser β}
    : Takes n (Parser.fail fault loc >>= f) where
  advances := nofun

theorem of_look (g : TokenStream → Nat → α) (hx : ∀ s i, x.at s i = .ok (g s i, i)) : Takes 0 x where
  advances a j hok := by
    cases (hx _ _).symm.trans hok
    exact Nat.le_refl _

instance (priority := low) [h : Takes 1 x] : Takes 0 x := h.of_one

instance {a : α} : Takes 0 (pure a) := of_look (fun _ _ => a) fun _ _ => rfl
instance : Takes 0 Parser.peek := of_look _ fun _ _ => rfl
instance : Takes 0 Parser.previous := of_look _ fun _ _ => rfl
instance : Takes 0 Parser.location := of_look _ fun _ _ => rfl
instance : Takes 0 Parser.atEnd := of_look _ fun _ _ => rfl
instance (kind : TokenKind) : Takes 0 (Parser.check kind) := of_look _ fun _ _ => rfl
instance (symbol : Symbol) : Takes 0 (Parser.checkSymbol symbol) := of_look _ fun _ _ => rfl
instance : Takes 0 Parser.lineBreakBefore := of_look _ fun _ _ => rfl
instance : Takes 0 Parser.remaining := of_look _ fun _ _ => rfl
instance : Takes 0 Grammar.atArrowFunction := of_look _ fun _ _ => Parser.atArrowFunction_at

instance [Takes 0 x] {f : α → Parser β} [hf : ∀ a, Takes n (f a)] : Takes n (x >>= f) := after hf

theorem first [hx : Takes 1 x] {f : α → Parser β} (hf : ∀ a, Takes 0 (f a)) : Takes 1 (x >>= f) where
  advances b j hok := by
    obtain ⟨a, k, ha, hb⟩ := Parser.bind_eq_ok hok
    have := hx.advances a k ha
    have := (hf a).advances b j hb
    omega

instance [Takes 1 x] {f : α → Parser β} [hf : ∀ a, Takes 0 (f a)] : Takes 1 (x >>= f) := first hf

instance {f : α → β} [hx : Takes n x] : Takes n (f <$> x) where
  advances b j hok := by
    obtain ⟨a, k, ha, hb⟩ := Parser.bind_eq_ok (f := fun a => pure (f a)) hok
    cases hb
    exact hx.advances a j ha

instance [h : Takes n x] : Takes n (discard x) :=
  inferInstanceAs (Takes n (_ <$> x))

instance {c : Prop} [Decidable c] [hx : Takes n x] [hy : Takes n y] : Takes n (if c then x else y) :=
  ite hx hy

instance {fault : SyntaxFault} {loc : Location} : Takes n (Parser.fail fault loc : Parser α) := fail

instance : Takes n (Parser.unexpected : Parser α) where
  advances := nofun

instance : Takes 0 Parser.advance where
  advances a j hok := by
    rw [Parser.advance_at] at hok
    cases hok
    split <;> omega

instance (kind : TokenKind) : Takes 0 (Parser.accept kind) := by
  unfold Parser.accept
  infer_instance

instance (symbol : Symbol) : Takes 0 (Parser.acceptSymbol symbol) :=
  inferInstanceAs (Takes 0 (Parser.accept _))

instance (word : Keyword) : Takes 0 (Parser.acceptKeyword word) :=
  inferInstanceAs (Takes 0 (Parser.accept _))

instance (symbol : Symbol) : Takes 1 (Parser.expectSymbol symbol) where
  advances a j hok := by
    rw [Parser.expectSymbol_at] at hok
    split at hok <;> cases hok
    exact Nat.le_refl _

instance (word : Keyword) : Takes 1 (Parser.expectKeyword word) where
  advances a j hok := by
    rw [Parser.expectKeyword_at] at hok
    split at hok <;> cases hok
    exact Nat.le_refl _

instance : Takes 0 Parser.semicolon := by
  unfold Parser.semicolon
  infer_instance

theorem many_go {more : Parser Bool} [Takes 0 more] [Takes 0 x] (fuel : Nat) (acc : Array α)
    : Takes 0 (Parser.many.go more x fuel acc) := by
  induction fuel generalizing acc with
  | zero => exact inferInstanceAs (Takes 0 (pure _))
  | succ fuel ih =>
    unfold Parser.many.go
    infer_instance

instance {more : Parser Bool} [Takes 0 more] [Takes 0 x] : Takes 0 (Parser.many more x) :=
  after fun _ => many_go _ _

instance [Takes 1 x] : Takes 1 (Parser.commaSeparated x) := by
  unfold Parser.commaSeparated
  infer_instance

theorem listUntil_go {close : Symbol} [Takes 0 x] (fuel : Nat) (acc : Array α)
    : Takes 0 (Parser.listUntil.go close x fuel acc) := by
  induction fuel generalizing acc with
  | zero => exact inferInstanceAs (Takes 0 (pure _))
  | succ fuel ih =>
    unfold Parser.listUntil.go
    infer_instance

instance {close : Symbol} [Takes 0 x] : Takes 0 (Parser.listUntil close x) :=
  after fun _ => listUntil_go _ _

end Takes

/-! Readers that look at the next token, which is then known not to be the end. -/

namespace Advances

variable {α β : Type} {s : TokenStream} {i n : Nat} {x y : Parser α}

theorem of_takes [hx : Takes n x] : Advances s i n x :=
  hx.advances

theorem ite {c : Prop} [Decidable c] (hx : Advances s i n x) (hy : Advances s i n y)
    : Advances s i n (if c then x else y) := by
  split
  . exact hx
  . exact hy

theorem fail_bind {fault : SyntaxFault} {loc : Location} {f : α → Parser β}
    : Advances s i n (Parser.fail fault loc >>= f) :=
  nofun

theorem advance {f : Unit → Parser β} [hf : Takes 0 (f ())] (hkind : (s.get i).kind ≠ .endOfInput)
    : Advances s i 1 (Parser.advance >>= f) := by
  intro b j hok
  rw [Parser.bind_at, Parser.advance_at, if_neg hkind] at hok
  exact hf.advances b j hok

end Advances

/-- The reader takes nothing and has the given result, or takes a token at least. -/
def Idles {α : Type} (s : TokenStream) (i : Nat) (a : α) (x : Parser α) : Prop :=
  x.at s i = .ok (a, i) ∨ Advances s i 1 x

namespace Idles

variable {α β : Type} {s : TokenStream} {i : Nat} {a : α} {x y : Parser α}

theorem pure : Idles s i a (Pure.pure a) :=
  .inl rfl

theorem of_takes [hx : Takes 1 x] : Idles s i a x :=
  .inr hx.advances

theorem of_advances (hx : Advances s i 1 x) : Idles s i a x :=
  .inr hx

theorem look {b : β} {y : Parser β} {f : β → Parser α} (hy : y.at s i = .ok (b, i)) (hf : Idles s i a (f b))
    : Idles s i a (y >>= f) := by
  have heq : (y >>= f).at s i = (f b).at s i := by rw [Parser.bind_at, hy]; rfl
  rcases hf with hok | hadvances
  . exact .inl (heq.trans hok)
  . exact .inr fun a j hok => hadvances a j (heq ▸ hok)

theorem ite {c : Prop} [Decidable c] (hx : Idles s i a x) (hy : Idles s i a y) : Idles s i a (if c then x else y) := by
  split
  . exact hx
  . exact hy

/-- A symbol that need not be there. -/
theorem accept {symbol : Symbol} [hx : Takes 0 x] (hy : Idles s i a y)
    : Idles s i a (Parser.acceptSymbol symbol >>= fun found => if found = true then x else y) := by
  by_cases hkind : (s.get i).kind = .symbol symbol
  . right
    intro b j hok
    rw [Parser.bind_at, Parser.acceptSymbol_at, if_pos hkind] at hok
    exact hx.advances b j hok
  . refine .look (by rw [Parser.acceptSymbol_at, if_neg hkind]) ?_
    exact hy

end Idles

theorem Takes.of_idles {α : Type} {a : α} {x : Parser α} (h : ∀ s i, Idles s i a x) : Takes 0 x where
  advances b j hok := by
    rcases h _ _ with hidle | hadvances
    . cases hidle.symm.trans hok
      exact Nat.le_refl _
    . exact Nat.le_of_lt (hadvances b j hok)

theorem Takes.of_peek {α : Type} {n : Nat} {f : Token → Parser α} (hf : ∀ s i, Advances s i n (f (s.get i)))
    : Takes n (Parser.peek >>= f) where
  advances := hf _ _

namespace Takes

instance : Takes 1 Parser.name := by
  refine .of_peek fun s i => ?_
  split
  . next hkind => exact .advance (by simp [hkind])
  . exact .of_takes

instance : Takes 1 Parser.propertyName := by
  refine .of_peek fun s i => ?_
  split
  . next hkind => exact .advance (by simp [hkind])
  . next hkind => exact .advance (by simp [hkind])
  . exact .of_takes

end Takes

namespace Grammar

/-- The rules that nested constructs are read with take a token each. -/
class Strict (lower : Option Grammar) : Prop where
  expression : Takes 1 (expression lower)
  nestedStatement : ∀ jumps, Takes 1 (nestedStatement lower jumps)
  unary : Takes 1 (nested lower fun g => g.unary)
  operand : ∀ level tighter op loc left,
    Takes 1 (nested lower fun g => g.operand level tighter op loc left)
  access : ∀ object, Takes 1 (nested lower fun g => g.access object)

attribute [instance] Strict.expression Strict.nestedStatement Strict.unary Strict.operand Strict.access

namespace Takes

variable {lower : Option Grammar} [Strict lower]

instance : Takes 0 inBlock := by
  unfold inBlock
  infer_instance

instance (jumps : Jumps) : Takes 1 (braced lower jumps) := by
  unfold braced
  infer_instance

theorem parameters_go (fuel : Nat) (params : List String) : Takes 0 (parameters.go fuel params) := by
  induction fuel generalizing params with
  | zero => exact inferInstanceAs (Takes 0 (pure _))
  | succ fuel ih =>
    unfold parameters.go
    dsimp only
    infer_instance

instance : Takes 0 parameters := by
  have := parameters_go
  unfold parameters
  infer_instance

instance (named : Bool) : Takes 1 (functionLiteral lower named) := by
  unfold functionLiteral
  dsimp only
  refine .after fun start => .first fun _ => .after fun token => ?_
  split <;> infer_instance

instance : Takes 1 (arrayLiteral lower) := by
  unfold arrayLiteral
  infer_instance

instance : Takes 1 propertyKey := by
  refine .of_peek fun s i => ?_
  split
  . next hkind => exact .advance (by simp [hkind])
  . next hkind => exact .advance (by simp [hkind])
  . exact .of_takes
  . exact .of_takes

instance : Takes 1 (property lower) := by
  unfold property
  infer_instance

instance : Takes 1 (objectLiteral lower) := by
  unfold objectLiteral
  infer_instance

theorem kind_of_literal? {t : Token} {e : Expr} (h : literal? t = some e) : t.kind ≠ .endOfInput := by
  intro hkind
  simp [literal?, hkind] at h

instance : Takes 1 (primary lower) := by
  refine .of_peek fun s i => ?_
  split
  . next hliteral => exact .advance (kind_of_literal? hliteral)
  . split <;> exact .of_takes

instance (object : Expr) : Takes 0 (accesses lower object) := by
  unfold accesses
  refine .after fun token => ?_
  split <;> infer_instance

instance (object : Expr) : Takes 1 (accessRule lower object) := by
  unfold accessRule
  refine .after fun token => .after fun _ => ?_
  split <;> infer_instance

instance : Takes 1 (updated lower) := by
  unfold updated
  dsimp only
  refine .first fun e => .after fun operand => .after fun newline => .ite ?_ (.after fun token => ?_)
  . infer_instance
  . split <;> infer_instance

instance : Takes 1 (unaryRule lower) := by
  unfold unaryRule
  refine .after fun token => ?_
  split
  . infer_instance
  . dsimp only
    infer_instance

instance (level : Precedence) (tighter : List Precedence) (left : Expr)
    : Takes 0 (operators lower level tighter left) := by
  unfold operators
  refine .after fun token => ?_
  split <;> infer_instance

instance (levels : List Precedence) : Takes 1 (binary lower levels) := by
  induction levels with
  | nil => exact inferInstanceAs (Takes 1 (unaryRule _))
  | cons level tighter ih =>
    unfold binary
    infer_instance

instance (level : Precedence) (tighter : List Precedence) (op : BinaryOp) (loc : Location) (left : Expr)
    : Takes 1 (operandRule lower level tighter op loc left) := by
  unfold operandRule
  infer_instance

instance : Takes 1 (conditional lower) := by
  unfold conditional
  infer_instance

instance : Takes 1 (arrowFunction lower) := by
  unfold arrowFunction
  dsimp only
  refine .after fun start => .after fun paren => .ite ?_ ?_
  . infer_instance
  . infer_instance

instance : Takes 1 (assignmentRule lower) := by
  unfold assignmentRule
  refine .after fun arrow => .ite ?_ (.first fun target => .after fun token => ?_)
  . infer_instance
  . dsimp only
    split
    . infer_instance
    . refine .ite (.after fun _ => .after fun value => ?_) ?_
      . split <;> infer_instance
      . exact .fail_bind

instance (jumps : Jumps) : Takes 1 (body lower jumps) := by
  unfold body
  infer_instance

instance : Takes 1 (condition lower) := by
  unfold condition
  infer_instance

instance (kind : DeclareKind) : Takes 1 (declarator lower kind) := by
  unfold declarator
  dsimp only
  infer_instance

instance (kind : DeclareKind) : Takes 1 (declaration lower kind) := by
  unfold declaration
  infer_instance

instance (loc : Location) : Takes 0 (returnStatement lower loc) := by
  unfold returnStatement
  dsimp only
  infer_instance

instance (jumps : Jumps) (loc : Location) : Takes 1 (ifStatement lower jumps loc) := by
  unfold ifStatement
  dsimp only
  infer_instance

instance (jumps : Jumps) (loc : Location) : Takes 1 (whileStatement lower jumps loc) := by
  unfold whileStatement
  infer_instance

instance (jumps : Jumps) (loc : Location) : Takes 1 (doStatement lower jumps loc) := by
  unfold doStatement
  infer_instance

instance (close : Symbol) : Takes 0 (optionalExpression lower close) := by
  unfold optionalExpression
  infer_instance

instance : Takes 0 (forInit lower) := by
  unfold forInit
  refine .after fun token => .ite ?_ ?_
  . infer_instance
  . split <;> infer_instance

instance (jumps : Jumps) (loc : Location) : Takes 1 (forStatement lower jumps loc) := by
  unfold forStatement
  refine .first fun _ => .after fun init => .after fun _ => ?_
  infer_instance

instance : Takes 0 handlerParam := by
  unfold handlerParam
  infer_instance

instance (jumps : Jumps) (loc : Location) : Takes 1 (tryStatement lower jumps loc) := by
  unfold tryStatement
  dsimp only
  refine .first fun block => .after fun found => .ite (.after fun param => .after fun body => ?_) ?_
  . infer_instance
  . infer_instance

instance (loc : Location) : Takes 1 (throwStatement lower loc) := by
  unfold throwStatement
  dsimp only
  infer_instance

instance (jumps : Jumps) : Takes 1 (statementRule lower jumps) := by
  refine .of_peek fun s i => ?_
  dsimp only
  split
  . exact .of_takes
  . exact .of_takes
  . exact .of_takes
  . exact .of_takes
  . next hkind => exact .ite (.advance (by simp [hkind])) .fail_bind
  . next hkind => exact .advance (by simp [hkind])
  . next hkind => exact .advance (by simp [hkind])
  . next hkind => exact .advance (by simp [hkind])
  . next hkind => exact .advance (by simp [hkind])
  . next hkind => exact .ite (.advance (by simp [hkind])) .fail_bind
  . next hkind => exact .ite (.advance (by simp [hkind])) .fail_bind
  . next hkind => exact .advance (by simp [hkind])
  . next hkind => exact .advance (by simp [hkind])
  . exact .of_takes
  . next hkind => exact .advance (by simp [hkind])
  . exact .of_takes

instance strict (n : Nat) : Strict (ofLevels n) := by
  induction n with
  | zero =>
    have hnone : ∀ {α : Type} (rule : Grammar → Parser α), Takes 1 (nested (ofLevels 0) rule) :=
      fun _ => .after fun _ => .fail
    exact ⟨hnone _, fun _ => hnone _, hnone _, fun _ _ _ _ _ => hnone _, fun _ => hnone _⟩
  | succ n ih =>
    exact ⟨inferInstanceAs (Takes 1 (assignmentRule (ofLevels n))),
      fun jumps => inferInstanceAs (Takes 1 (statementRule (ofLevels n) jumps)),
      inferInstanceAs (Takes 1 (unaryRule (ofLevels n))),
      fun level tighter op loc left =>
        inferInstanceAs (Takes 1 (operandRule (ofLevels n) level tighter op loc left)),
      fun object => inferInstanceAs (Takes 1 (accessRule (ofLevels n) object))⟩

end Takes
end Grammar
end ScriptHost
