import ScriptHost.Proofs.Syntax.Levels

/-!
This module contains which expressions are readable: those that the reader of any level gets back from what
is printed of them, with parentheses where the level is too tight.
-/

namespace ScriptHost

open Grammar

/-- The kinds start with one that has a property. -/
def Begins (P : TokenKind → Prop) (ks : List TokenKind) : Prop :=
  ∃ k ks', ks = k :: ks' ∧ P k

theorem Begins.append {P : TokenKind → Prop} {ks : List TokenKind} (hks : Begins P ks)
    (ks' : List TokenKind)
    : Begins P (ks ++ ks') := by
  obtain ⟨k, rest, rfl, hk⟩ := hks
  exact ⟨k, rest ++ ks', rfl, hk⟩

theorem Begins.mono {P P' : TokenKind → Prop} {ks : List TokenKind} (hks : Begins P ks)
    (hP : ∀ k, P k → P' k)
    : Begins P' ks := by
  obtain ⟨k, rest, rfl, hk⟩ := hks
  exact ⟨k, rest, rfl, hP k hk⟩

/-- Whether an expression can start with the token. -/
def TokenKind.startsExpr : TokenKind → Bool
  | .number _ | .string _ | .name _ => true
  | .keyword k => k ∈ [.true, .false, .null, .undefined, .typeof, .function]
  | .symbol s =>
    s ∈ [.leftParen, .leftBracket, .leftBrace, .not, .minus, .plus, .increment, .decrement]
  | .endOfInput => false

namespace Expr

variable {σ : Style} {e : Expr} {ts : List TokenKind} {m need links : Nat}

/-- The reader of a level gets the expression from its tokens, if the next one ends it. -/
def ReadAt (e : Expr) (m : Nat) (ts : List TokenKind) (need : Nat) : Prop :=
  ∀ ⦃s : TokenStream⦄ ⦃p : Prop⦄ ⦃n : Nat⦄ ⦃k : TokenKind⦄ ⦃ks : List TokenKind⦄, s.Line → k.Stops m →
    (p → need ≤ n) →
    Reads s p (readerOf (ofLevels n) m) (ts ++ k :: ks) fun e' ks' =>
      e'.unplaced = e.unplaced ∧ ks' = k :: ks

/--
The reader of a level gets the expression from its tokens and then goes on with it, as many levels deeper
as the expression has links.
-/
def LeadAt (e : Expr) (m : Nat) (ts : List TokenKind) (need links : Nat) : Prop :=
  ∀ ⦃s : TokenStream⦄ ⦃p : Prop⦄ ⦃n : Nat⦄ ⦃k : TokenKind⦄ ⦃ks : List TokenKind⦄
    ⦃R : Expr → List TokenKind → Prop⦄, s.Line → k.Stops (m + 1) → (p → need ≤ n) →
    (∀ e', e'.unplaced = e.unplaced → Reads s p (loop (ofLevels (n - links)) m e') (k :: ks) R) →
    Reads s p (readerOf (ofLevels n) m) (ts ++ k :: ks) R

theorem LeadAt.readAt (h : e.LeadAt m ts need links) (hm : 2 ≤ m) : e.ReadAt m ts need := by
  intro s p n k ks hs hk hp
  apply h hs (hk.mono (Nat.le_succ m)) hp
  intro e' he'
  apply (Reads.loop_stop hk hm).mono
  rintro _ _ ⟨rfl, rfl⟩
  exact ⟨he', rfl⟩

theorem ReadAt.leadAt (h : e.ReadAt (m + 1) ts need) (hm : IsLoop m) : e.LeadAt m ts need 0 := by
  intro s p n k ks R hs hk hp hR
  rw [readerOf_loop _ hm]
  apply (h hs hk hp).bind
  rintro e' _ ⟨he', rfl⟩
  exact hR e' he'

theorem ReadAt.updated (h : e.ReadAt 10 ts need) : e.ReadAt 9 ts need := by
  intro s p n k ks hs hk hp
  change Reads s p (Grammar.updated (ofLevels n)) _ _
  unfold Grammar.updated
  rw [← bind_assoc]
  apply (h hs (hk.mono (Nat.le_succ 9)) hp).bind
  rintro e' _ ⟨he', rfl⟩
  apply Reads.lineBreakBefore hs.oneLine
  rw [if_neg nofun]
  apply Reads.peek
  intro t ht
  rw [ht]
  split
  . exact absurd rfl (Reads.ne_of_stops hk (.symbol .increment) rfl (Nat.le_refl _))
  . exact absurd rfl (Reads.ne_of_stops hk (.symbol .decrement) rfl (Nat.le_refl _))
  . exact .pure ⟨he', rfl⟩

theorem ReadAt.unary (h : e.ReadAt 9 ts need) (hts : Begins (unaryOp? · = none) ts)
    : e.ReadAt 8 ts need := by
  intro s p n k ks hs hk hp
  obtain ⟨first, rest, rfl, hfirst⟩ := hts
  change Reads s p (unaryRule (ofLevels n)) _ _
  unfold unaryRule
  apply Reads.peek
  intro t ht
  rw [ht, hfirst]
  exact h hs (hk.mono (Nat.le_succ 8)) hp

/-- What is read at a level is read at the next looser one, too. -/
theorem ReadAt.step (h : e.ReadAt (m + 1) ts need) (hm : 2 ≤ m) (hm' : m ≤ 10)
    (hts : m = 8 → Begins (unaryOp? · = none) ts)
    : e.ReadAt m ts need := by
  by_cases h8 : m = 8
  . subst h8
    exact h.unary (hts rfl)
  by_cases h9 : m = 9
  . subst h9
    exact h.updated
  have hloop : IsLoop m := by
    unfold IsLoop
    omega
  exact (h.leadAt hloop).readAt hm

theorem ReadAt.loosen {l : Nat} (h : e.ReadAt l ts need) (hm : 2 ≤ m) (hml : m ≤ l) (hl : l ≤ 11)
    (hts : 9 ≤ l → Begins (unaryOp? · = none) ts)
    : e.ReadAt m ts need := by
  obtain ⟨d, rfl⟩ := Nat.exists_eq_add_of_le hml
  induction d generalizing m with
  | zero => exact h
  | succ d ih =>
    have hlevel : m + (d + 1) = m + 1 + d := by omega
    rw [hlevel] at h hl hts
    refine (ih (m := m + 1) (by omega) h (by omega) hl hts).step hm (by omega) ?_
    intro h8
    exact hts (by omega)

/-- The condition of a conditional, or what is none. -/
theorem ReadAt.reads_conditional (h : e.ReadAt 2 ts need) {s : TokenStream} {p : Prop} {n : Nat}
    {k : TokenKind} {ks : List TokenKind} (hs : s.Line) (hk : k.Stops 2) (hp : p → need ≤ n)
    (hquestion : k ≠ .symbol .question)
    : Reads s p (Grammar.conditional (ofLevels n)) (ts ++ k :: ks) fun e' ks' =>
        e'.unplaced = e.unplaced ∧ ks' = k :: ks := by
  unfold Grammar.conditional
  apply (h hs hk hp).bind
  rintro e' _ ⟨he', rfl⟩
  apply Reads.location
  intro loc
  apply Reads.acceptSymbol_other hquestion
  exact .pure ⟨he', rfl⟩

theorem head?_ne_arrow {k : TokenKind} (hk : k.Stops m) (hm : m ≤ 11) (ks : List TokenKind)
    : (k :: ks).head? ≠ some (.symbol .arrow) := by
  have hne : k ≠ .symbol .arrow := Reads.ne_of_stops hk _ rfl hm
  simpa using hne

theorem assignOp?_of_stops {k : TokenKind} (hk : k.Stops 0) : assignOp? k = none := by
  unfold assignOp?
  split
  case h_7 => rfl
  all_goals exact absurd (hk 0 rfl) (Nat.lt_irrefl 0)

theorem ReadAt.assignment (h : e.ReadAt 2 ts need) (hts : NoArrow ts) : e.ReadAt 0 ts need := by
  intro s p n k ks hs hk hp
  change Reads s p (assignmentRule (ofLevels n)) _ _
  unfold assignmentRule
  apply Reads.atArrowFunction_none hs (hts.append (head?_ne_arrow hk (Nat.zero_le _) ks))
  rw [if_neg nofun]
  have hquestion : k ≠ .symbol .question := Reads.ne_of_stops hk _ rfl (Nat.zero_le _)
  apply (h.reads_conditional hs (hk.mono (Nat.zero_le _)) hp hquestion).bind
  rintro e' _ ⟨he', rfl⟩
  apply Reads.peek
  intro t ht
  rw [ht, assignOp?_of_stops hk]
  exact .pure ⟨he', rfl⟩

/-- An expression where another one is nested. -/
theorem ReadAt.reads_expression (h : e.ReadAt 0 ts need) {s : TokenStream} {p : Prop} {n : Nat}
    {k : TokenKind} {ks : List TokenKind} (hs : s.Line) (hk : k.Stops 0) (hp : p → need + 1 ≤ n)
    : Reads s p (Grammar.expression (ofLevels n)) (ts ++ k :: ks) fun e' ks' =>
        e'.unplaced = e.unplaced ∧ ks' = k :: ks :=
  Reads.nested (fun h => Nat.lt_of_lt_of_le (Nat.succ_pos _) (hp h))
    (h hs hk fun h => Nat.le_sub_of_add_le (hp h))

theorem stops_of_continues? {k : TokenKind} (hk : k.continues? = none) (m : Nat) : k.Stops m := by
  intro l hl
  rw [hk] at hl
  cases hl

theorem ReadAt.parens (h : e.ReadAt 0 ts need) : e.ReadAt 11 (ScriptHost.parens ts) (need + 1) := by
  intro s p n k ks hs hk hp
  change Reads s p (primary (ofLevels n)) _ _
  rw [parens_append]
  unfold primary
  apply Reads.peek
  intro t ht
  unfold literal?
  rw [ht]
  dsimp only
  apply Reads.advance (by decide)
  apply (h.reads_expression hs (stops_of_continues? rfl 0) hp).bind
  rintro e' _ ⟨he', rfl⟩
  apply Reads.expectSymbol
  exact .pure ⟨he', rfl⟩

/-- An expression that all readers get back from what is printed of it. -/
structure Readable (σ : Style) (e : Expr) : Prop where
  balanced : Balanced (e.print σ)
  begins : Begins (·.startsExpr) (e.print σ)
  plain : 9 ≤ e.level → Begins (unaryOp? · = none) (e.print σ)
  noArrow : 2 ≤ e.level → NoArrow (e.print σ)
  loose : e.level ≤ 1 → e.ReadAt 0 (e.print σ) (e.need σ)
  tight : 2 ≤ e.level → e.LeadAt e.level (e.print σ) (e.need σ) e.links

theorem level_le (e : Expr) : e.level ≤ 11 := by
  unfold level
  split
  . exact Nat.zero_le _
  . exact Nat.zero_le _
  . decide
  . next op _ _ _ => exact Nat.le_trans op.level_bounds.2 (by decide)
  . split <;> decide
  . decide
  . decide
  . decide
  . split <;> decide
  . decide

namespace Readable

variable (h : e.Readable σ)
include h

theorem readAt_zero : e.ReadAt 0 (e.print σ) (e.need σ) := by
  by_cases hlevel : e.level ≤ 1
  . exact h.loose hlevel
  . have hlevel' : 2 ≤ e.level := Nat.lt_of_not_le hlevel
    have hread := (h.tight hlevel').readAt hlevel'
    exact (hread.loosen (Nat.le_refl 2) hlevel' e.level_le h.plain).assignment (h.noArrow hlevel')

theorem readAt (hm : 2 ≤ m) (hm' : m ≤ 11)
    : e.ReadAt m (enclosed m e (e.print σ)) (needEnclosed m e (e.need σ)) := by
  unfold enclosed needEnclosed
  by_cases hlevel : e.level < m
  . rw [if_pos hlevel, if_pos hlevel]
    exact h.readAt_zero.parens.loosen hm hm' (Nat.le_refl _) fun _ => ⟨_, _, rfl, rfl⟩
  . rw [if_neg hlevel, if_neg hlevel]
    have hlevel' : m ≤ e.level := Nat.le_of_not_lt hlevel
    have hread := (h.tight (Nat.le_trans hm hlevel')).readAt (Nat.le_trans hm hlevel')
    exact hread.loosen hm hlevel' e.level_le h.plain

theorem leadAt (hm : IsLoop m)
    : e.LeadAt m (enclosed m e (e.print σ)) (needEnclosed m e (e.need σ))
        (if e.level = m then e.links else 0) := by
  have hbounds : 2 ≤ m ∧ m ≤ 10 := by
    unfold IsLoop at hm
    omega
  by_cases hlevel : e.level = m
  . subst hlevel
    unfold enclosed needEnclosed
    rw [if_neg (Nat.lt_irrefl _), if_neg (Nat.lt_irrefl _), if_pos rfl]
    exact h.tight hbounds.1
  . rw [if_neg hlevel]
    have hlt : e.level < m ↔ e.level < m + 1 := by omega
    have hread := h.readAt (m := m + 1) (by omega) (by omega)
    unfold enclosed needEnclosed at hread ⊢
    simp only [hlt]
    exact hread.leadAt hm

end Readable
end Expr
end ScriptHost
