import ScriptHost.Proofs.Syntax.At

/-!
This module contains what the rules read when a script is a single expression in parentheses: nothing goes on
with the expression at the closing parenthesis, nor with the statement at the end.
-/

namespace ScriptHost

/-- The reader stops at the given position with a result that has the property, or it nests too deep. -/
def Reaches {α : Type} (s : TokenStream) (i j : Nat) (x : Parser α) (Q : α → Prop) : Prop :=
  (∃ a, x.at s i = .ok (a, j) ∧ Q a) ∨ ∃ loc, x.at s i = .error ⟨.nestedTooDeep, loc⟩

/-- The token ends a script or an expression in parentheses. -/
def TokenKind.Ends (k : TokenKind) : Prop :=
  k = .symbol .rightParen ∨ k = .endOfInput

namespace Reaches

variable {α β : Type} {s : TokenStream} {i j k : Nat} {x : Parser α} {Q Q' : α → Prop} {R : β → Prop}

theorem bind {f : α → Parser β} (hx : Reaches s i j x Q) (hf : ∀ a, Q a → Reaches s j k (f a) R)
    : Reaches s i k (x >>= f) R := by
  unfold Reaches
  rw [Parser.bind_at]
  rcases hx with ⟨a, hok, ha⟩ | ⟨loc, hdeep⟩
  . rw [hok]
    exact hf a ha
  . rw [hdeep]
    exact .inr ⟨loc, rfl⟩

theorem pure {a : α} (ha : Q a) : Reaches s i i (Pure.pure a) Q :=
  .inl ⟨a, rfl, ha⟩

/-- A step whose result is known. -/
theorem step {a : α} {f : α → Parser β} (hx : x.at s i = .ok (a, j)) (hf : Reaches s j k (f a) R)
    : Reaches s i k (x >>= f) R :=
  bind (Q := (· = a)) (.inl ⟨a, hx, rfl⟩) fun _ ha => ha ▸ hf

theorem mono (hx : Reaches s i j x Q) (hQ : ∀ a, Q a → Q' a) : Reaches s i j x Q' :=
  hx.imp_left fun ⟨a, hok, ha⟩ => ⟨a, hok, hQ a ha⟩

theorem advance {f : Unit → Parser β} (hkind : (s.get i).kind ≠ .endOfInput)
    (hf : Reaches s (i + 1) k (f ()) R)
    : Reaches s i k (Parser.advance >>= f) R :=
  step (by rw [Parser.advance_at, if_neg hkind]) hf

theorem expectSymbol {symbol : Symbol} {f : Unit → Parser β} (hkind : (s.get i).kind = .symbol symbol)
    (hf : Reaches s (i + 1) k (f ()) R)
    : Reaches s i k (Parser.expectSymbol symbol >>= f) R :=
  step (by rw [Parser.expectSymbol_at, if_pos hkind]) hf

theorem nested {n : Nat} {rule : Grammar → Parser α}
    (h : ∀ m, Reaches s i j (rule (Grammar.above (Grammar.ofLevels m))) Q)
    : Reaches s i j (Grammar.nested (Grammar.ofLevels n) rule) Q := by
  cases n with
  | zero => exact .inr ⟨_, rfl⟩
  | succ m => exact h m

end Reaches

namespace Grammar

open Reaches

variable {s : TokenStream} {i j n : Nat} {Q : Expr → Prop}

section

variable (hend : (s.get j).kind.Ends)
include hend

theorem reaches_accesses {e : Expr} (he : Q e) : Reaches s j j (accesses (ofLevels n) e) Q := by
  unfold accesses
  refine .step Parser.peek_at ?_
  rcases hend with hkind | hkind <;> rw [hkind] <;> exact .pure he

theorem reaches_updated (h : Reaches s i j (primary (ofLevels n)) Q) : Reaches s i j (updated (ofLevels n)) Q := by
  unfold updated
  refine h.bind fun e he => (reaches_accesses hend he).bind fun operand hoperand => ?_
  refine .step Parser.lineBreakBefore_at ?_
  split
  . exact .pure hoperand
  . refine .step Parser.peek_at ?_
    rcases hend with hkind | hkind <;> rw [hkind] <;> exact .pure hoperand

theorem reaches_binary (hop : unaryOp? (s.get i).kind = none) (h : Reaches s i j (primary (ofLevels n)) Q)
    {levels : List Precedence} (hlevels : ∀ level ∈ levels, binaryOp? level (.symbol .rightParen) = none)
    : Reaches s i j (binary (ofLevels n) levels) Q := by
  induction levels with
  | nil =>
    refine .step Parser.peek_at ?_
    rw [hop]
    exact reaches_updated hend h
  | cons level tighter ih =>
    obtain ⟨hlevel, htighter⟩ := List.forall_mem_cons.1 hlevels
    refine (ih htighter).bind fun e he => .step Parser.peek_at ?_
    have hnone : binaryOp? level (s.get j).kind = none := by
      rcases hend with hkind | hkind <;> rw [hkind]
      . exact hlevel
      . rfl
    rw [hnone]
    exact .pure he

/-- What a primary expression is alone, it is as an assignment too. -/
theorem reaches_assignmentRule (harrow : Parser.startsArrow s i = false) (hop : unaryOp? (s.get i).kind = none)
    (h : Reaches s i j (primary (ofLevels n)) Q)
    : Reaches s i j (assignmentRule (ofLevels n)) Q := by
  have hconditional : Reaches s i j (conditional (ofLevels n)) Q := by
    refine (reaches_binary hend hop h (by decide)).bind fun e he => ?_
    refine .step Parser.location_at (.step (a := false) (j := j) ?_ (.pure he))
    rcases hend with hkind | hkind <;> rw [Parser.acceptSymbol_at, hkind] <;> rfl
  unfold assignmentRule
  refine .step Parser.atArrowFunction_at ?_
  rw [harrow]
  refine hconditional.bind fun e he => .step Parser.peek_at ?_
  rcases hend with hkind | hkind <;> rw [hkind] <;> exact .pure he

end

/-- An expression in parentheses. -/
theorem reaches_primary_parens (hleft : (s.get i).kind = .symbol .leftParen)
    (hright : (s.get j).kind = .symbol .rightParen) (h : Reaches s (i + 1) j (expression (ofLevels n)) Q)
    : Reaches s i (j + 1) (primary (ofLevels n)) Q := by
  unfold primary
  refine .step Parser.peek_at ?_
  rw [show literal? (s.get i) = none by simp [literal?, hleft], hleft]
  exact .advance (by rw [hleft]; rintro ⟨⟩) (h.bind fun e he => .expectSymbol hright (.pure he))

/-- Such an expression up to the end is a statement. -/
theorem reaches_statementRule {jumps : Jumps} (hleft : (s.get i).kind = .symbol .leftParen)
    (hend : (s.get j).kind = .endOfInput) (h : Reaches s i j (expression (ofLevels n)) Q)
    : Reaches s i j (statementRule (ofLevels n) jumps) fun st => ∃ e loc, st = .expr e loc ∧ Q e := by
  unfold statementRule
  refine .step Parser.peek_at ?_
  dsimp only
  rw [hleft]
  refine h.bind fun e he => .step (a := ()) (j := j) ?_ (.pure ⟨e, _, rfl, he⟩)
  rw [Parser.semicolon_at, if_neg (by rw [hend]; nofun), if_pos (.inr (.inl hend))]

theorem reaches_script {R : Stmt → Prop} (hfirst : (s.get 0).kind ≠ .endOfInput) (hsize : 0 < s.tokens.size)
    (hend : (s.get j).kind = .endOfInput) (h : ∀ m, Reaches s 0 j (statementRule (ofLevels m) {}) R)
    : Reaches s 0 j script fun stmts => ∃ st, stmts = [st] ∧ R st := by
  unfold script Parser.many
  refine .step Parser.remaining_at ?_
  obtain ⟨fuel, hfuel⟩ : ∃ fuel, s.tokens.size - 0 + 1 = fuel + 2 := ⟨s.tokens.size - 1, by omega⟩
  rw [hfuel]
  unfold Parser.many.go
  refine .step (a := true) (j := 0) ?_ ?_
  . rw [Parser.bind_at, Parser.atEnd_at, decide_eq_false hfirst]
    rfl
  . refine Reaches.bind (Q := R) (.nested h) fun st hst => ?_
    unfold Parser.many.go
    refine .step (a := false) (j := j) ?_ (.pure ⟨st, rfl, hst⟩)
    rw [Parser.bind_at, Parser.atEnd_at, decide_eq_true hend]
    rfl

/--
A script whose first parenthesis closes at its end, in front of no arrow: it is the expression in the
parentheses.
-/
theorem reaches_script_parens {stop : Nat} (hleft : (s.get 0).kind = .symbol .leftParen) (hsize : 0 < s.tokens.size)
    (hright : (s.get stop).kind = .symbol .rightParen) (hend : (s.get (stop + 1)).kind = .endOfInput)
    (harrow : Parser.startsArrow s 0 = false)
    (h : ∀ m, Reaches s 1 stop (assignmentRule (ofLevels m)) Q)
    : Reaches s 0 (stop + 1) script fun stmts => ∃ e loc, stmts = [.expr e loc] ∧ Q e := by
  have hop : unaryOp? (s.get 0).kind = none := by
    rw [hleft]
    rfl
  have hstatement : ∀ m, Reaches s 0 (stop + 1) (statementRule (ofLevels m) {})
      fun st => ∃ e loc, st = .expr e loc ∧ Q e := by
    refine fun m => reaches_statementRule hleft hend (.nested fun m => ?_)
    exact reaches_assignmentRule (.inr hend) harrow hop (reaches_primary_parens hleft hright (.nested h))
  refine (reaches_script (by rw [hleft]; nofun) hsize hend hstatement).mono ?_
  rintro _ ⟨_, rfl, e, loc, rfl, he⟩
  exact ⟨e, loc, rfl, he⟩

end Grammar
end ScriptHost
