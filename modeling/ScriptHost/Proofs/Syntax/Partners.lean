import ScriptHost.Proofs.Syntax.Arrows

/-!
This module contains the partners of parentheses, in any list of tokens: the partner is the first one behind
a parenthesis where all that have been opened from it on are closed. Exactly the parentheses whose partners
have arrows right behind them are found to open arrow parameters.
-/

namespace ScriptHost

/-- The kinds close all parentheses that they open, and `d` that are open in front of them. -/
def ClosesAll (d : Nat) (ks : List TokenKind) : Prop :=
  d + ks.count (.symbol .leftParen) ≤ ks.count (.symbol .rightParen)

/--
At position `j` stands the partner of the parenthesis at position `i`: the first one behind it where all
parentheses that have been opened from it on are closed.
-/
structure Partners (ks : List TokenKind) (i j : Nat) : Prop where
  opens : ks[i]? = some (.symbol .leftParen)
  later : i < j
  closes : ClosesAll 0 (ks.extract i (j + 1))
  first : ∀ k, i < k → k < j → ¬ ClosesAll 0 (ks.extract i (k + 1))

/-- Behind the kind at position `j`, and not before, the outermost of `d` open parentheses is closed. -/
structure Shuts (d : Nat) (ks : List TokenKind) (j : Nat) : Prop where
  closes : ClosesAll d (ks.take (j + 1))
  first : ∀ k < j, ¬ ClosesAll d (ks.take (k + 1))

theorem ClosesAll.not_nil {d : Nat} : ¬ ClosesAll (d + 1) [] := by
  simp [ClosesAll]

theorem closesAll_leftParen {d : Nat} {ks : List TokenKind}
    : ClosesAll d (.symbol .leftParen :: ks) ↔ ClosesAll (d + 1) ks := by
  rw [ClosesAll, List.count_cons_self, List.count_cons_of_ne (by simp), ClosesAll]
  omega

theorem closesAll_rightParen {d : Nat} {ks : List TokenKind}
    : ClosesAll (d + 1) (.symbol .rightParen :: ks) ↔ ClosesAll d ks := by
  rw [ClosesAll, List.count_cons_self, List.count_cons_of_ne (by simp), ClosesAll]
  omega

theorem closesAll_other {d : Nat} {k : TokenKind} {ks : List TokenKind} (hleft : k ≠ .symbol .leftParen)
    (hright : k ≠ .symbol .rightParen)
    : ClosesAll d (k :: ks) ↔ ClosesAll d ks := by
  rw [ClosesAll, List.count_cons_of_ne hleft, List.count_cons_of_ne hright, ClosesAll]

namespace Shuts

variable {d d' j : Nat} {k : TokenKind} {ks : List TokenKind}

theorem not_nil : ¬ Shuts (d + 1) [] j := by
  rintro ⟨hcloses, -⟩
  rw [List.take_nil] at hcloses
  exact ClosesAll.not_nil hcloses

/-- Parentheses that are still open behind the first kind are closed by the others. -/
theorem cons_iff (hcloses : ∀ ks', ClosesAll d (k :: ks') ↔ ClosesAll (d' + 1) ks')
    : Shuts d (k :: ks) j ↔ ∃ j', j = j' + 1 ∧ Shuts (d' + 1) ks j' := by
  have hopen : ¬ ClosesAll d ((k :: ks).take (0 + 1)) := by
    rw [List.take_succ_cons, hcloses, List.take_zero]
    exact ClosesAll.not_nil
  constructor
  . rintro ⟨h, hfirst⟩
    cases j with
    | zero => exact absurd h hopen
    | succ j =>
      rw [List.take_succ_cons, hcloses] at h
      refine ⟨j, rfl, h, fun i hi hi' => hfirst (i + 1) (Nat.succ_lt_succ hi) ?_⟩
      rwa [List.take_succ_cons, hcloses]
  . rintro ⟨j, rfl, h, hfirst⟩
    refine ⟨by rwa [List.take_succ_cons, hcloses], fun i hi hi' => ?_⟩
    cases i with
    | zero => exact hopen hi'
    | succ i =>
      rw [List.take_succ_cons, hcloses] at hi'
      exact hfirst i (Nat.lt_of_succ_lt_succ hi) hi'

theorem leftParen_iff
    : Shuts d (.symbol .leftParen :: ks) j ↔ ∃ j', j = j' + 1 ∧ Shuts (d + 1) ks j' :=
  cons_iff fun _ => closesAll_leftParen

theorem rightParen_iff
    : Shuts (d + 2) (.symbol .rightParen :: ks) j ↔ ∃ j', j = j' + 1 ∧ Shuts (d + 1) ks j' :=
  cons_iff fun _ => closesAll_rightParen

theorem other_iff (hleft : k ≠ .symbol .leftParen) (hright : k ≠ .symbol .rightParen)
    : Shuts (d + 1) (k :: ks) j ↔ ∃ j', j = j' + 1 ∧ Shuts (d + 1) ks j' :=
  cons_iff fun _ => closesAll_other hleft hright

/-- The last open parenthesis is closed by the next closing one. -/
theorem rightParen_one_iff : Shuts 1 (.symbol .rightParen :: ks) j ↔ j = 0 := by
  have hcloses : ClosesAll 1 ((TokenKind.symbol .rightParen :: ks).take (0 + 1)) := by
    rw [List.take_succ_cons, closesAll_rightParen, List.take_zero]
    exact Nat.zero_le _
  constructor
  . rintro ⟨-, hfirst⟩
    exact Nat.eq_zero_of_not_pos fun hj => hfirst 0 hj hcloses
  . rintro rfl
    exact ⟨hcloses, nofun⟩

end Shuts

/-- The outermost of `d` open parentheses is closed somewhere in front of an arrow. -/
def ShutsBeforeArrow (d : Nat) (ks : List TokenKind) : Prop :=
  ∃ j, Shuts d ks j ∧ ks[j + 1]? = some (.symbol .arrow)

/-- At position `i` stands a parenthesis with an arrow behind its partner. -/
def OpensArrow (ks : List TokenKind) (i : Nat) : Prop :=
  ks[i]? = some (.symbol .leftParen) ∧ ShutsBeforeArrow 1 (ks.drop (i + 1))

variable {ks : List TokenKind} {k : TokenKind} {opened : List Nat} {d n i j : Nat}

theorem not_shutsBeforeArrow_nil : ¬ ShutsBeforeArrow d [] :=
  nofun

theorem shutsBeforeArrow_cons_iff {d' : Nat}
    (hshuts : ∀ j, Shuts d (k :: ks) j ↔ ∃ j', j = j' + 1 ∧ Shuts d' ks j')
    : ShutsBeforeArrow d (k :: ks) ↔ ShutsBeforeArrow d' ks := by
  constructor
  . rintro ⟨j, hj, harrow⟩
    obtain ⟨j, rfl, hj'⟩ := (hshuts _).1 hj
    exact ⟨j, hj', harrow⟩
  . rintro ⟨j, hj, harrow⟩
    exact ⟨j + 1, (hshuts _).2 ⟨j, rfl, hj⟩, harrow⟩

theorem shutsBeforeArrow_one_iff
    : ShutsBeforeArrow 1 (.symbol .rightParen :: ks) ↔ ks.head? = some (.symbol .arrow) := by
  simp [ShutsBeforeArrow, Shuts.rightParen_one_iff, List.head?_eq_getElem?]

/-- The positions of a list are its first one and those of the others. -/
theorem exists_opensArrow_cons_iff
    : (∃ m, i = n + m ∧ OpensArrow (k :: ks) m) ↔
      (i = n ∧ k = .symbol .leftParen ∧ ShutsBeforeArrow 1 ks) ∨ ∃ m, i = n + 1 + m ∧ OpensArrow ks m := by
  constructor
  . rintro ⟨m, rfl, hopens, hshuts⟩
    cases m with
    | zero => exact .inl ⟨rfl, by simpa using hopens, hshuts⟩
    | succ m => exact .inr ⟨m, by omega, hopens, hshuts⟩
  . rintro (⟨rfl, rfl, hshuts⟩ | ⟨m, rfl, hopens, hshuts⟩)
    . exact ⟨0, rfl, rfl, hshuts⟩
    . exact ⟨m + 1, by omega, hopens, hshuts⟩

/-- An open parenthesis is the innermost one or one of the others. -/
theorem exists_opened_cons_iff {start : Nat} {p : Nat → Prop}
    : (∃ d, (start :: opened)[d]? = some i ∧ p d) ↔
      (i = start ∧ p 0) ∨ ∃ d, opened[d]? = some i ∧ p (d + 1) := by
  rw [← Nat.or_exists_add_one]
  simp [eq_comm]

/--
What is found with the parentheses `opened` in front are those of them that are closed in front of an arrow,
the innermost one first, and those of the list itself.
-/
theorem mem_arrowPositions_iff
    : i ∈ arrowPositions n opened ks ↔
      (∃ d, opened[d]? = some i ∧ ShutsBeforeArrow (d + 1) ks) ∨ ∃ m, i = n + m ∧ OpensArrow ks m := by
  induction ks generalizing n opened with
  | nil => simp [arrowPositions, not_shutsBeforeArrow_nil, OpensArrow]
  | cons k ks ih =>
    rw [exists_opensArrow_cons_iff]
    by_cases hleft : k = .symbol .leftParen
    . subst hleft
      have hshuts : ∀ d, ShutsBeforeArrow (d + 1) (.symbol .leftParen :: ks) ↔ ShutsBeforeArrow (d + 2) ks :=
        fun d => shutsBeforeArrow_cons_iff fun _ => Shuts.leftParen_iff
      rw [arrowPositions, ih, exists_opened_cons_iff]
      simp only [hshuts]
      simp [or_assoc, or_left_comm]
    . by_cases hright : k = .symbol .rightParen
      . subst hright
        cases opened with
        | nil =>
          rw [arrowPositions, ih]
          simp
        | cons start opened =>
          have hshuts : ∀ d, ShutsBeforeArrow (d + 2) (.symbol .rightParen :: ks) ↔ ShutsBeforeArrow (d + 1) ks :=
            fun d => shutsBeforeArrow_cons_iff fun _ => Shuts.rightParen_iff
          rw [arrowPositions, exists_opened_cons_iff, shutsBeforeArrow_one_iff]
          simp only [hshuts]
          split
          . next harrow => simp [harrow, ih, or_assoc]
          . next harrow => simp [harrow, ih]
      . have hshuts : ∀ d, ShutsBeforeArrow (d + 1) (k :: ks) ↔ ShutsBeforeArrow (d + 1) ks :=
          fun d => shutsBeforeArrow_cons_iff fun _ => Shuts.other_iff hleft hright
        rw [arrowPositions_cons hleft hright, ih]
        simp [hshuts, hleft]

/-- The partner of a parenthesis closes it in the list behind it. -/
theorem partners_iff_shuts (hopens : ks[i]? = some (.symbol .leftParen))
    : Partners ks i (i + 1 + j) ↔ Shuts 1 (ks.drop (i + 1)) j := by
  have hdrop : ks.drop i = .symbol .leftParen :: ks.drop (i + 1) := by
    obtain ⟨hlt, hk⟩ := List.getElem?_eq_some_iff.1 hopens
    rw [List.drop_eq_getElem_cons hlt, hk]
  have hcloses : ∀ m, ClosesAll 0 (ks.extract i (i + 1 + m + 1)) ↔
      ClosesAll 1 ((ks.drop (i + 1)).take (m + 1)) := by
    intro m
    rw [List.extract_eq_take_drop, hdrop, show i + 1 + m + 1 - i = m + 1 + 1 by omega, List.take_succ_cons,
      closesAll_leftParen]
  constructor
  . rintro ⟨-, -, h, hfirst⟩
    refine ⟨(hcloses j).1 h, fun m hm hm' => ?_⟩
    exact hfirst (i + 1 + m) (by omega) (by omega) ((hcloses m).2 hm')
  . rintro ⟨h, hfirst⟩
    refine ⟨hopens, by omega, (hcloses j).2 h, fun m hi hj hm => ?_⟩
    obtain ⟨m, rfl⟩ := Nat.exists_eq_add_of_le (show i + 1 ≤ m from hi)
    exact hfirst m (by omega) ((hcloses m).1 hm)

theorem opensArrow_iff : OpensArrow ks i ↔ ∃ j, Partners ks i j ∧ ks[j + 1]? = some (.symbol .arrow) := by
  constructor
  . rintro ⟨hopens, j, hshuts, harrow⟩
    rw [List.getElem?_drop, ← Nat.add_assoc] at harrow
    exact ⟨i + 1 + j, (partners_iff_shuts hopens).2 hshuts, harrow⟩
  . rintro ⟨j, hj, harrow⟩
    obtain ⟨j, rfl⟩ := Nat.exists_eq_add_of_le (show i + 1 ≤ j from hj.later)
    refine ⟨hj.opens, j, (partners_iff_shuts hj.opens).1 hj, ?_⟩
    rwa [List.getElem?_drop, ← Nat.add_assoc]

/--
Whatever the tokens are, exactly the positions of the parentheses are found whose partner exists and has an
arrow right behind it.
-/
theorem TokenStream.mem_arrows_iff (tokens : Array Token) (i : Nat)
    : (TokenStream.ofTokens tokens).arrows.contains i = true ↔
      ∃ j, Partners (tokens.toList.map (·.kind)) i j ∧
        (tokens.toList.map (·.kind))[j + 1]? = some (.symbol .arrow) := by
  have hcontains : (TokenStream.ofTokens tokens).arrows.contains i = true ↔
      i ∈ arrowPositions 0 [] (tokens.toList.map (·.kind)) := by
    simp [TokenStream.ofTokens, Std.HashSet.contains_ofList]
  rw [hcontains, mem_arrowPositions_iff, ← opensArrow_iff]
  simp

/-- Only the inner one of two parentheses stands before an arrow function: `((a) => a)((b))`. -/
example : arrowPositions 0 []
    [.symbol .leftParen, .symbol .leftParen, .name "a", .symbol .rightParen, .symbol .arrow, .name "a",
      .symbol .rightParen, .symbol .leftParen, .symbol .leftParen, .name "b", .symbol .rightParen,
      .symbol .rightParen] = [1] := by
  decide

end ScriptHost
