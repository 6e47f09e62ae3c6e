import ScriptHost.Proofs.Syntax.Print

/-!
This module contains the levels of the grammar of expressions: the reader of each level, and which tokens
end an expression there. What is read at a level is read at all looser ones, too, if the next token does
not go on with it.
-/

namespace ScriptHost

/-- The level at which a token goes on with an expression in front of it. -/
def TokenKind.continues? : TokenKind → Option Nat
  | .symbol .leftParen | .symbol .dot | .symbol .leftBracket => some 10
  | .symbol .increment | .symbol .decrement => some 9
  | .symbol .star | .symbol .slash | .symbol .percent => some 7
  | .symbol .plus | .symbol .minus => some 6
  | .symbol .less | .symbol .lessEqual | .symbol .greater | .symbol .greaterEqual => some 5
  | .symbol .equal | .symbol .notEqual | .symbol .strictEqual | .symbol .strictNotEqual => some 4
  | .symbol .and => some 3
  | .symbol .or => some 2
  | .symbol .question => some 1
  | .symbol .assign | .symbol .plusAssign | .symbol .minusAssign | .symbol .starAssign
  | .symbol .slashAssign | .symbol .percentAssign => some 0
  -- an arrow behind a name or parentheses makes them parameters
  | .symbol .arrow => some 11
  | _ => none

/-- The token ends an expression of the given level. -/
def TokenKind.Stops (k : TokenKind) (m : Nat) : Prop :=
  ∀ l ∈ k.continues?, l < m

theorem TokenKind.Stops.mono {k : TokenKind} {m m' : Nat} (hk : k.Stops m) (hm : m ≤ m') : k.Stops m' :=
  fun l hl => Nat.lt_of_lt_of_le (hk l hl) hm

/-- No token goes on with an expression at the level of unary operators. -/
theorem TokenKind.Stops.unary {k : TokenKind} (hk : k.Stops 9) : k.Stops 8 := by
  intro l hl
  have hne : l ≠ 8 := by
    rintro rfl
    unfold continues? at hl
    split at hl <;> cases hl
  have := hk l hl
  omega

theorem BinaryOp.continues?_symbol (op : BinaryOp)
    : (TokenKind.symbol op.symbol).continues? = some op.level := by
  cases op <;> rfl

theorem BinaryOp.level_bounds (op : BinaryOp) : 2 ≤ op.level ∧ op.level ≤ 7 := by
  cases op <;> decide

namespace Grammar

/-- The binary operators of a level. -/
def tier (m : Nat) : Precedence :=
  precedences.getD (m - 2) []

/-- The binary operators from a level on. -/
def tiers (m : Nat) : List Precedence :=
  precedences.drop (m - 2)

/-- The reader of the expressions of a level or tighter ones. -/
def readerOf (lower : Option Grammar) : (level : Nat) → Parser Expr
  | 0 => assignmentRule lower
  | 1 => conditional lower
  | 9 => updated lower
  | 10 => primary lower >>= accesses lower
  | 11 => primary lower
  | m => binary lower (tiers m)

/-- There can be any number of operators or accesses at a level. -/
def IsLoop (m : Nat) : Prop :=
  (2 ≤ m ∧ m ≤ 7) ∨ m = 10

/-- What goes on with an expression at a level. -/
def loop (lower : Option Grammar) : (level : Nat) → (e : Expr) → Parser Expr
  | 10, e => accesses lower e
  | m, e => if m ≤ 7 then operators lower (tier m) (tiers (m + 1)) e else pure e

theorem loop_binary (lower : Option Grammar) {m : Nat} (hm : m ≤ 7) (e : Expr)
    : loop lower m e = operators lower (tier m) (tiers (m + 1)) e := by
  unfold loop
  split
  . contradiction
  . rw [if_pos hm]

theorem readerOf_binary (lower : Option Grammar) {m : Nat} (hm : 2 ≤ m) (hm' : m ≤ 8)
    : readerOf lower m = binary lower (tiers m) := by
  match m, hm, hm' with
  | 2, _, _ | 3, _, _ | 4, _, _ | 5, _, _ | 6, _, _ | 7, _, _ | 8, _, _ => rfl

theorem readerOf_loop (lower : Option Grammar) {m : Nat} (hm : IsLoop m)
    : readerOf lower m = readerOf lower (m + 1) >>= loop lower m := by
  rcases hm with ⟨hm, hm'⟩ | rfl
  . match m, hm, hm' with
    | 2, _, _ | 3, _, _ | 4, _, _ | 5, _, _ | 6, _, _ | 7, _, _ => rfl
  . rfl

theorem binaryOp?_tier (op : BinaryOp) : binaryOp? (tier op.level) (.symbol op.symbol) = some op := by
  cases op <;> rfl

theorem lookup_tier {m : Nat} (hm : 2 ≤ m) (hm' : m ≤ 7) {symbol : Symbol} {op : BinaryOp}
    (hop : (tier m).lookup symbol = some op)
    : (TokenKind.symbol symbol).continues? = some m := by
  match m, hm, hm' with
  | 2, _, _ | 3, _, _ | 4, _, _ | 5, _, _ | 6, _, _ | 7, _, _ =>
    cases symbol <;> first | rfl | cases hop

theorem binaryOp?_of_stops {m : Nat} (hm : 2 ≤ m) (hm' : m ≤ 7) {k : TokenKind} (hk : k.Stops m)
    : binaryOp? (tier m) k = none := by
  cases k with
  | symbol symbol =>
    cases hop : (tier m).lookup symbol with
    | none => exact hop
    | some op => exact absurd (hk m (lookup_tier hm hm' hop)) (Nat.lt_irrefl m)
  | _ => rfl

end Grammar

namespace Reads

open Grammar

variable {α β : Type} {s : TokenStream} {p : Prop} {k : TokenKind} {ks : List TokenKind} {m n : Nat}
  {e : Expr} {R : α → List TokenKind → Prop} {lower : Option Grammar}

/-- A nested construct takes one of the levels of nesting that are left. -/
theorem nested {rule : Grammar → Parser α} (hn : p → 0 < n)
    (hrule : Reads s p (rule (above (ofLevels (n - 1)))) ks R)
    : Reads s p (Grammar.nested (ofLevels n) rule) ks R := by
  cases n with
  | zero => exact fun i _ => Or.inr ⟨fun h => Nat.lt_irrefl 0 (hn h), _, rfl⟩
  | succ n => exact hrule

theorem ne_of_stops (hk : k.Stops m) (k' : TokenKind) {l : Nat} (hk' : k'.continues? = some l)
    (hl : m ≤ l)
    : k ≠ k' := by
  rintro rfl
  exact absurd (hk l hk') (Nat.not_lt_of_le hl)

theorem accesses_stop (hk : k.Stops 10)
    : Reads s p (accesses lower e) (k :: ks) fun e' ks' => e' = e ∧ ks' = k :: ks := by
  unfold accesses
  apply peek
  intro t ht
  rw [ht]
  split
  . exact absurd rfl (ne_of_stops hk (.symbol .leftParen) rfl (Nat.le_refl _))
  . exact absurd rfl (ne_of_stops hk (.symbol .dot) rfl (Nat.le_refl _))
  . exact absurd rfl (ne_of_stops hk (.symbol .leftBracket) rfl (Nat.le_refl _))
  . exact .pure ⟨rfl, rfl⟩

theorem loop_stop (hk : k.Stops m) (hm : 2 ≤ m)
    : Reads s p (loop lower m e) (k :: ks) fun e' ks' => e' = e ∧ ks' = k :: ks := by
  by_cases h10 : m = 10
  . subst h10
    exact accesses_stop hk
  by_cases h7 : m ≤ 7
  . rw [loop_binary lower h7]
    unfold operators
    apply peek
    intro t ht
    rw [ht, binaryOp?_of_stops hm h7 hk]
    exact .pure ⟨rfl, rfl⟩
  . unfold loop
    split
    . contradiction
    . rw [if_neg h7]
      exact .pure ⟨rfl, rfl⟩

end Reads
end ScriptHost
