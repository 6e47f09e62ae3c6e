import ScriptHost.Proofs.Syntax.Reading

/-!
This module contains where arrow functions start: which parentheses have an arrow behind their partner, in
kinds of tokens whose parentheses are balanced.
-/

namespace ScriptHost

/-- A list in parentheses. -/
def parens (ks : List TokenKind) : List TokenKind :=
  .symbol .leftParen :: (ks ++ [.symbol .rightParen])

theorem parens_append (ks ks' : List TokenKind)
    : parens ks ++ ks' = .symbol .leftParen :: (ks ++ .symbol .rightParen :: ks') := by
  simp [parens]

/-- Every parenthesis has a partner in the list. -/
inductive Balanced : List TokenKind → Prop where
  | nil : Balanced []
  | cons {k : TokenKind} {ks : List TokenKind} (hleft : k ≠ .symbol .leftParen)
      (hright : k ≠ .symbol .rightParen) (hks : Balanced ks)
    : Balanced (k :: ks)
  | append {ks ks' : List TokenKind} (hks : Balanced ks) (hks' : Balanced ks') : Balanced (ks ++ ks')
  | parens {ks : List TokenKind} (hks : Balanced ks) : Balanced (parens ks)

variable {ks ks' : List TokenKind} {k : TokenKind} {i j n : Nat} {opened : List Nat}

theorem arrowPositions_cons (hleft : k ≠ .symbol .leftParen) (hright : k ≠ .symbol .rightParen)
    : arrowPositions n opened (k :: ks) = arrowPositions (n + 1) opened ks := by
  rw [arrowPositions]
  . exact hleft
  . exact hright

/-- What is found are parentheses that are open in front of the list, or that stand in it. -/
theorem mem_arrowPositions (hi : i ∈ arrowPositions n opened ks) : i ∈ opened ∨ n ≤ i := by
  induction ks generalizing n opened with
  | nil => cases hi
  | cons k ks ih =>
    have hlater : ∀ {opened'}, i ∈ arrowPositions (n + 1) opened' ks →
        (∀ j ∈ opened', j ∈ opened ∨ n ≤ j) → i ∈ opened ∨ n ≤ i := by
      intro opened' hi hsub
      rcases ih hi with hi | hi
      . exact hsub i hi
      . exact Or.inr (Nat.le_of_succ_le hi)
    by_cases hleft : k = .symbol .leftParen
    . subst hleft
      apply hlater hi
      intro j hj
      rcases List.mem_cons.1 hj with rfl | hj
      . exact Or.inr (Nat.le_refl _)
      . exact Or.inl hj
    . by_cases hright : k = .symbol .rightParen
      . subst hright
        cases opened with
        | nil => exact hlater hi nofun
        | cons start opened =>
          rw [arrowPositions] at hi
          have hrest := fun hi => @hlater opened hi
            fun j hj => Or.inl (List.mem_cons_of_mem _ hj)
          split at hi
          . rcases List.mem_cons.1 hi with rfl | hi
            . exact Or.inl List.mem_cons_self
            . exact hrest hi
          . exact hrest hi
      . rw [arrowPositions_cons hleft hright] at hi
        exact hlater hi fun j hj => Or.inl hj

/-- A list in front makes no difference for a parenthesis behind it. -/
theorem arrowPositions_append (ks : List TokenKind) (hopened : ∀ j ∈ opened, j < n)
    : ∃ opened', (∀ j ∈ opened', j < n + ks.length) ∧ ∀ ks' i, n + ks.length ≤ i →
        (i ∈ arrowPositions n opened (ks ++ ks') ↔ i ∈ arrowPositions (n + ks.length) opened' ks') := by
  induction ks generalizing n opened with
  | nil => exact ⟨opened, hopened, fun _ _ _ => Iff.rfl⟩
  | cons k ks ih =>
    have hlength : n + (k :: ks).length = n + 1 + ks.length := by
      rw [List.length_cons]
      omega
    rw [hlength]
    by_cases hleft : k = .symbol .leftParen
    . subst hleft
      refine @ih (n + 1) (n :: opened) ?_
      intro j hj
      rcases List.mem_cons.1 hj with rfl | hj
      . exact Nat.lt_succ_self _
      . exact Nat.lt_succ_of_lt (hopened j hj)
    . by_cases hright : k = .symbol .rightParen
      . subst hright
        cases opened with
        | nil => exact @ih (n + 1) [] nofun
        | cons start opened =>
          obtain ⟨opened', hopened', hiff⟩ := @ih (n + 1) opened
            fun j hj => Nat.lt_succ_of_lt (hopened j (List.mem_cons_of_mem _ hj))
          refine ⟨opened', hopened', ?_⟩
          intro ks' i hi
          rw [← hiff ks' i hi, List.cons_append, arrowPositions]
          have hne : i ≠ start := by
            have := hopened start List.mem_cons_self
            omega
          split
          . simp [hne]
          . rfl
      . obtain ⟨opened', hopened', hiff⟩ := @ih (n + 1) opened
          fun j hj => Nat.lt_succ_of_lt (hopened j hj)
        refine ⟨opened', hopened', ?_⟩
        intro ks' i hi
        rw [← hiff ks' i hi, List.cons_append, arrowPositions_cons hleft hright]

/-- A balanced list makes no difference for a parenthesis in front of it. -/
theorem Balanced.mem_arrowPositions (hks : Balanced ks) (hi : i < n)
    : i ∈ arrowPositions n opened (ks ++ ks')
        ↔ i ∈ arrowPositions (n + ks.length) opened ks' := by
  induction hks generalizing n opened ks' with
  | nil => rfl
  | @cons k ks hleft hright _ ih =>
    have hlength : n + (k :: ks).length = n + 1 + ks.length := by
      rw [List.length_cons]
      omega
    rw [List.cons_append, arrowPositions_cons hleft hright, ih (Nat.lt_succ_of_lt hi), hlength]
  | @append ks₁ ks₂ _ _ ih₁ ih₂ =>
    rw [List.append_assoc, ih₁ hi, ih₂ (Nat.lt_add_right _ hi), List.length_append, Nat.add_assoc]
  | @parens ks _ ih =>
    have hlength : n + (ScriptHost.parens ks).length = n + 1 + ks.length + 1 := by
      simp [ScriptHost.parens]
      omega
    rw [parens_append, arrowPositions, ih (Nat.lt_succ_of_lt hi), arrowPositions, hlength]
    have hne : i ≠ n := Nat.ne_of_lt hi
    split
    . simp [hne]
    . rfl

/-- A parenthesis is found if and only if there is an arrow behind its partner. -/
theorem mem_arrowPositions_parens (before : List TokenKind) (hks : Balanced ks)
    : before.length ∈ arrowPositions 0 [] (before ++ (parens ks ++ ks'))
        ↔ ks'.head? = some (.symbol .arrow) := by
  obtain ⟨opened, hopened, hiff⟩ := @arrowPositions_append 0 [] before nofun
  rw [Nat.zero_add] at hiff hopened
  rw [hiff _ _ (Nat.le_refl _), parens_append, arrowPositions,
    hks.mem_arrowPositions (Nat.lt_succ_self _), arrowPositions]
  have hlater : before.length ∉ arrowPositions (before.length + 1 + ks.length + 1) opened ks' := by
    intro hmem
    rcases ScriptHost.mem_arrowPositions hmem with hmem | hle
    . exact Nat.lt_irrefl _ (hopened _ hmem)
    . omega
  split
  . next harrow => simp [harrow]
  . next harrow => simp [harrow, hlater]

/-- No arrow function starts here: neither a name nor parentheses have an arrow behind them. -/
inductive NoArrow : List TokenKind → Prop where
  | other {k : TokenKind} {ks : List TokenKind} (hname : ∀ name, k ≠ .name name)
      (hparen : k ≠ .symbol .leftParen)
    : NoArrow (k :: ks)
  | name {name : String} {ks : List TokenKind} (hks : ks.head? ≠ some (.symbol .arrow))
    : NoArrow (.name name :: ks)
  | parens {ks ks' : List TokenKind} (hks : Balanced ks) (hks' : ks'.head? ≠ some (.symbol .arrow))
    : NoArrow (parens ks ++ ks')

theorem head?_append_ne (hks : ks.head? ≠ some k) (hks' : ks'.head? ≠ some k)
    : (ks ++ ks').head? ≠ some k := by
  cases ks with
  | nil => exact hks'
  | cons => exact hks

theorem NoArrow.append (hks : NoArrow ks) (hks' : ks'.head? ≠ some (.symbol .arrow))
    : NoArrow (ks ++ ks') := by
  cases hks with
  | other hname hparen => exact .other hname hparen
  | name hks => exact .name (head?_append_ne hks hks')
  | parens hks hrest =>
    rw [List.append_assoc]
    exact .parens hks (head?_append_ne hrest hks')

/-- It is known behind which parentheses there are arrows. -/
class TokenStream.KnowsArrows (s : TokenStream) : Prop where
  contains_iff_mem : ∀ i, s.arrows.contains i = true ↔ i ∈ arrowPositions 0 [] (s.kindsFrom 0)

instance (tokens : Array Token) : (TokenStream.ofTokens tokens).KnowsArrows where
  contains_iff_mem i := by
    unfold TokenStream.ofTokens
    simp [Std.HashSet.contains_ofList, TokenStream.kindsFrom]

theorem TokenStream.contains_iff {s : TokenStream} [hs : s.KnowsArrows] (hks : Balanced ks)
    (hi : s.kindsFrom i = parens ks ++ ks')
    : s.arrows.contains i = true ↔ ks'.head? = some (.symbol .arrow) := by
  have hsplit : s.kindsFrom 0 = (s.kindsFrom 0).take i ++ s.kindsFrom i := by
    unfold kindsFrom
    rw [List.drop_zero, ← List.map_take, ← List.map_append, List.take_append_drop]
  have hlength : ((s.kindsFrom 0).take i).length = i := by
    have hlt := (get_of_kindsFrom hi).2.2
    simp [kindsFrom]
    omega
  rw [hs.contains_iff_mem, hsplit, hi]
  have hiff := @mem_arrowPositions_parens _ ks' ((s.kindsFrom 0).take i) hks
  rw [hlength] at hiff
  exact hiff

/-- The tokens stand on one line, and it is known behind which parentheses there are arrows. -/
structure TokenStream.Line (s : TokenStream) : Prop where
  oneLine : s.OneLine
  arrows : ∀ i, s.arrows.contains i = true ↔ i ∈ arrowPositions 0 [] (s.kindsFrom 0)

theorem TokenStream.line_ofTokens {tokens : Array Token}
    (hline : ∀ t ∈ tokens, ∀ t' ∈ tokens, t.loc.line = t'.loc.line)
    : (TokenStream.ofTokens tokens).Line where
  oneLine := hline
  arrows := KnowsArrows.contains_iff_mem

theorem TokenStream.Line.contains_iff {s : TokenStream} (hs : s.Line) (hks : Balanced ks)
    (hi : s.kindsFrom i = parens ks ++ ks')
    : s.arrows.contains i = true ↔ ks'.head? = some (.symbol .arrow) := by
  have : s.KnowsArrows := ⟨hs.arrows⟩
  exact TokenStream.contains_iff hks hi

namespace Reads

variable {α : Type} {s : TokenStream} {p : Prop} {f : Bool → Parser α} {R : α → List TokenKind → Prop}

theorem atArrowFunction_name {name : String}
    (hf : Reads s p (f (decide (ks.head? = some (.symbol .arrow)))) (.name name :: ks) R)
    : Reads s p (Grammar.atArrowFunction >>= f) (.name name :: ks) R := by
  unfold Grammar.atArrowFunction
  rw [bind_assoc]
  apply peek
  intro t ht
  rw [ht]
  dsimp only
  rw [bind_assoc]
  apply peekSecond
  intro t' ht'
  -- without a token behind the name, the end is read in its place
  have hkind : t'.kind = .symbol .arrow ↔ ks.head? = some (.symbol .arrow) := by
    rw [ht']
    cases ks <;> simp
  rw [pure_bind, decide_eq_decide.2 hkind]
  exact hf

theorem atArrowFunction_parens (hs : s.Line) (hks : Balanced ks)
    (hf : Reads s p (f (decide (ks'.head? = some (.symbol .arrow)))) (ScriptHost.parens ks ++ ks') R)
    : Reads s p (Grammar.atArrowFunction >>= f) (ScriptHost.parens ks ++ ks') R := by
  unfold Grammar.atArrowFunction
  rw [bind_assoc]
  apply peek
  intro t ht
  rw [ht]
  dsimp only
  have hlook : ∀ i, Parser.at (do return (← read).arrows.contains (← get) : Parser Bool) s i
      = .ok (s.arrows.contains i, i) := fun _ => rfl
  refine look _ hlook fun i hi => ?_
  have hcontains := hs.contains_iff hks hi
  rw [show s.arrows.contains i = decide (ks'.head? = some (.symbol .arrow)) by
    rw [Bool.eq_iff_iff, hcontains, decide_eq_true_iff]]
  exact hf

theorem atArrowFunction_none (hs : s.Line) (hks : NoArrow ks) (hf : Reads s p (f false) ks R)
    : Reads s p (Grammar.atArrowFunction >>= f) ks R := by
  cases hks with
  | @other k ks hname hparen =>
    unfold Grammar.atArrowFunction
    rw [bind_assoc]
    apply peek
    intro t ht
    rw [ht]
    split
    . next name => exact absurd rfl (hname name)
    . exact absurd rfl hparen
    . exact hf
  | name hks =>
    apply atArrowFunction_name
    rw [decide_eq_false hks]
    exact hf
  | parens hks hrest =>
    apply atArrowFunction_parens hs hks
    rw [decide_eq_false hrest]
    exact hf

end Reads
end ScriptHost
