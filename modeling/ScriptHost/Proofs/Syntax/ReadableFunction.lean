import ScriptHost.Proofs.Syntax.ReadableOperators

/-!
This module contains which statements are readable, and that functions are readable expressions if the
statements of their blocks or their values are readable.
-/

namespace ScriptHost

open Grammar

/-- Whether the token neither ends a block or a script nor goes on with a statement in front of it. -/
def TokenKind.startsStmt (k : TokenKind) : Bool :=
  k ∉ [.symbol .rightBrace, .endOfInput, .keyword .else, .keyword .catch, .keyword .finally]

/-- Whether the token does not go on with a statement in front of it. -/
def TokenKind.followsStmt (k : TokenKind) : Bool :=
  k ∉ [.keyword .else, .keyword .catch, .keyword .finally]

theorem TokenKind.followsStmt_of_startsStmt {k : TokenKind} (hk : k.startsStmt) : k.followsStmt := by
  simp [startsStmt] at hk
  simp [followsStmt, hk]

/-- A statement that the reader gets back from what is printed of it. -/
structure Stmt.Readable (σ : Style) (jumps : Jumps) (st : Stmt) : Prop where
  balanced : Balanced (st.print σ)
  begins : Begins (·.startsStmt) (st.print σ)
  reads : ∀ ⦃s : TokenStream⦄ ⦃p : Prop⦄ ⦃n : Nat⦄ ⦃k : TokenKind⦄ ⦃ks : List TokenKind⦄, s.Line →
    k.followsStmt → (p → st.need σ ≤ n) →
    Reads s p (statementRule (ofLevels n) jumps) (st.print σ ++ k :: ks) fun st' ks' =>
      st'.unplaced = st.unplaced ∧ ks' = k :: ks

/-- The parts of the body are readable. -/
def FunctionBody.Readable (σ : Style) : FunctionBody → Prop
  | .block stmts => ∀ st ∈ stmts, st.Readable σ { inFunction := true }
  | .expr value => value.Readable σ

namespace Stmt

variable {σ : Style} {jumps : Jumps} {stmts : List Stmt} {s : TokenStream} {p : Prop} {n : Nat}
  {k : TokenKind} {ks : List TokenKind}

theorem printAll_eq_flatMap (σ : Style) (stmts : List Stmt)
    : Stmt.printAll σ stmts = stmts.flatMap (Stmt.print σ) := by
  induction stmts with
  | nil => rfl
  | cons st stmts ih => rw [Stmt.printAll, ih, List.flatMap_cons]

theorem unplacedAll_eq_map (stmts : List Stmt) : Stmt.unplacedAll stmts = stmts.map Stmt.unplaced := by
  induction stmts with
  | nil => rfl
  | cons st stmts ih => rw [Stmt.unplacedAll, ih, List.map_cons]

theorem need_lt_needAll {st : Stmt} (hst : st ∈ stmts) : st.need σ + 1 ≤ Stmt.needAll σ stmts := by
  induction stmts with
  | nil => cases hst
  | cons st' stmts ih =>
    rw [Stmt.needAll]
    rcases List.mem_cons.1 hst with rfl | hst
    . exact Nat.le_max_left _ _
    . exact Nat.le_trans (ih hst) (Nat.le_max_right _ _)

theorem balanced_printAll (h : ∀ st ∈ stmts, st.Readable σ jumps) : Balanced (Stmt.printAll σ stmts) := by
  induction stmts with
  | nil => exact .nil
  | cons st stmts ih =>
    rw [Stmt.printAll]
    have hstmts := ih fun st hst => h st (List.mem_cons_of_mem _ hst)
    exact (h st List.mem_cons_self).balanced.append hstmts

/-- Statements up to a token that none of them starts with. -/
theorem reads_statements {more : Parser Bool} (h : ∀ st ∈ stmts, st.Readable σ jumps) (hs : s.Line)
    (hp : p → Stmt.needAll σ stmts ≤ n) (hk : k.followsStmt)
    (hmore : ∀ k ks, k.startsStmt → Reads s p more (k :: ks) fun b ks' => b = true ∧ ks' = k :: ks)
    (hdone : Reads s p more (k :: ks) fun b ks' => b = false ∧ ks' = k :: ks)
    : Reads s p (Parser.many more (nestedStatement (ofLevels n) jumps)) (Stmt.printAll σ stmts ++ k :: ks)
        fun stmts' ks' => Stmt.unplacedAll stmts' = Stmt.unplacedAll stmts ∧ ks' = k :: ks := by
  rw [printAll_eq_flatMap, unplacedAll_eq_map]
  simp only [unplacedAll_eq_map]
  have hfollows : Begins (·.followsStmt) (k :: ks) := ⟨k, ks, rfl, hk⟩
  have hnext : ∀ st ∈ stmts, ∀ ks, Reads s p more ([] ++ (st.print σ ++ ks)) fun b ks' =>
      b = true ∧ ks' = st.print σ ++ ks := by
    intro st hst ks
    obtain ⟨k, rest, hks, hk⟩ := (h st hst).begins
    rw [hks]
    exact hmore k _ hk
  apply Reads.many hnext hdone ?_ hfollows
  . intro st hst ks
    exact ((h st hst).begins.append ks).mono fun _ => TokenKind.followsStmt_of_startsStmt
  . intro st hst
    obtain ⟨k, ks, hks, -⟩ := (h st hst).begins
    rw [hks]
    exact nofun
  . rintro st hst _ ⟨k, ks, rfl, hk⟩
    have hneed : p → st.need σ + 1 ≤ n := fun h => Nat.le_trans (need_lt_needAll hst) (hp h)
    apply Reads.nested fun h => Nat.lt_of_lt_of_le (Nat.succ_pos _) (hneed h)
    exact (h st hst).reads hs hk fun h => Nat.le_sub_of_add_le (hneed h)

theorem reads_inBlock (hk : k.startsStmt)
    : Reads s p inBlock (k :: ks) fun b ks' => b = true ∧ ks' = k :: ks := by
  simp [TokenKind.startsStmt] at hk
  unfold inBlock
  apply Reads.check
  rw [decide_eq_false hk.1, if_neg nofun]
  apply Reads.atEnd
  rw [decide_eq_false hk.2.1]
  exact .pure ⟨rfl, rfl⟩

theorem reads_braced (h : ∀ st ∈ stmts, st.Readable σ jumps) (hs : s.Line)
    (hp : p → Stmt.needAll σ stmts ≤ n)
    : Reads s p (braced (ofLevels n) jumps) (braces (Stmt.printAll σ stmts) ++ ks) fun stmts' ks' =>
        Stmt.unplacedAll stmts' = Stmt.unplacedAll stmts ∧ ks' = ks := by
  rw [braces_append]
  unfold braced
  apply Reads.expectSymbol
  have hdone : Reads s p inBlock (.symbol .rightBrace :: ks) fun b ks' =>
      b = false ∧ ks' = .symbol .rightBrace :: ks := by
    unfold inBlock
    apply Reads.check
    exact .pure ⟨rfl, rfl⟩
  apply (reads_statements h hs hp rfl (fun _ _ => reads_inBlock) hdone).bind
  rintro stmts' _ ⟨hstmts', rfl⟩
  apply Reads.expectSymbol
  exact .pure ⟨hstmts', rfl⟩

end Stmt

namespace Expr

variable {σ : Style} {e : Expr} {s : TokenStream} {p : Prop} {n : Nat} {ks : List TokenKind}

theorem Readable.readAt_guarded (h : e.Readable σ) (isGuarded : Bool)
    : e.ReadAt 0 (guarded isGuarded (e.print σ)) (needGuarded isGuarded (e.need σ)) := by
  unfold guarded needGuarded
  cases isGuarded with
  | false => exact h.readAt_zero
  | true =>
    have hread := h.readAt_zero.parens.loosen (Nat.le_refl 2) (by decide) (Nat.le_refl _)
      fun _ => ⟨_, _, rfl, rfl⟩
    apply hread.assignment
    rw [← List.append_nil (parens _)]
    exact .parens h.balanced nofun

theorem Readable.balanced_guarded (h : e.Readable σ) (isGuarded : Bool)
    : Balanced (guarded isGuarded (e.print σ)) := by
  unfold guarded
  split
  . exact h.balanced.parens
  . exact h.balanced

theorem begins_guarded {ks : List TokenKind} (hks : Begins (·.startsExpr) ks) (isGuarded : Bool)
    : Begins (·.startsExpr) (guarded isGuarded ks) := by
  unfold guarded
  split
  . exact ⟨_, _, rfl, rfl⟩
  . exact hks

theorem balanced_parameterTokens (params : List String) : Balanced (parameterTokens params) := by
  apply Balanced.commas
  intro ts hts
  obtain ⟨param, -, rfl⟩ := List.mem_map.1 hts
  exact .single nofun nofun

theorem balanced_names (name : Option String) : Balanced (name.toList.map TokenKind.name) := by
  cases name with
  | none => exact .nil
  | some name => exact .single nofun nofun

theorem balanced_function {name : Option String} {params : List String} {stmts : List Stmt}
    {loc : Location} (h : ∀ st ∈ stmts, st.Readable σ { inFunction := true })
    : Balanced (Function.print σ ⟨name, params, .block stmts, loc⟩) := by
  have hparams := (balanced_names name).append (balanced_parameterTokens params).parens
  exact .cons nofun nofun (hparams.append (Stmt.balanced_printAll h).braces)

/-- The parameters of a function in their parentheses. -/
theorem reads_parameters {β : Type} {params : List String} {f : List String → Parser β}
    {R : β → List TokenKind → Prop} (hparams : params.Nodup) (hf : Reads s p (f params) ks R)
    : Reads s p (parameters >>= fun params => Parser.expectSymbol .rightParen >>= fun _ => f params)
        (parameterTokens params ++ .symbol .rightParen :: ks) R := by
  apply (Reads.parameters hparams).bind
  rintro _ _ ⟨rfl, rfl⟩
  apply Reads.expectSymbol
  exact hf

/-- A function with a block. A declaration must have a name. -/
theorem reads_functionLiteral {named : Bool} {name : Option String} {params : List String}
    {stmts : List Stmt} {loc : Location} (hname : named → name.isSome) (hparams : params.Nodup)
    (h : ∀ st ∈ stmts, st.Readable σ { inFunction := true }) (hs : s.Line)
    (hp : p → Stmt.needAll σ stmts ≤ n)
    : Reads s p (functionLiteral (ofLevels n) named)
        (Function.print σ ⟨name, params, .block stmts, loc⟩ ++ ks) fun f ks' =>
          f.unplaced = Function.unplaced ⟨name, params, .block stmts, loc⟩ ∧ ks' = ks := by
  have htokens : Function.print σ ⟨name, params, .block stmts, loc⟩ ++ ks
      = .keyword .function :: (name.toList.map .name ++ .symbol .leftParen ::
        (parameterTokens params ++ .symbol .rightParen :: (braces (Stmt.printAll σ stmts) ++ ks))) := by
    rw [Function.print, List.cons_append, List.append_assoc, List.append_assoc, parens_append]
  have hrest : ∀ start : Location, Reads s p (do
        Parser.expectSymbol .leftParen
        let params ← parameters
        Parser.expectSymbol .rightParen
        let body ← braced (ofLevels n) { inFunction := true }
        return ⟨name, params, .block body, start.through (← Parser.previous).loc⟩ : Parser Function)
      (.symbol .leftParen ::
        (parameterTokens params ++ .symbol .rightParen :: (braces (Stmt.printAll σ stmts) ++ ks)))
      fun f ks' => f.unplaced = Function.unplaced ⟨name, params, .block stmts, loc⟩ ∧ ks' = ks := by
    intro start
    apply Reads.expectSymbol
    apply reads_parameters hparams
    apply (Stmt.reads_braced h hs hp).bind
    rintro stmts' _ ⟨hstmts', rfl⟩
    apply Reads.previous
    intro last
    refine .pure ⟨?_, rfl⟩
    rw [Function.unplaced, Function.unplaced, FunctionBody.unplaced, FunctionBody.unplaced, hstmts']
  rw [htokens]
  unfold functionLiteral
  apply Reads.location
  intro start
  apply Reads.expectKeyword
  cases name with
  | none =>
    apply Reads.peek
    intro t ht
    rw [ht]
    cases named with
    | true => cases hname rfl
    | false =>
      dsimp only
      rw [pure_bind]
      exact hrest start
  | some name =>
    apply Reads.peek
    intro t ht
    rw [ht]
    cases named
    all_goals
      dsimp only
      rw [map_eq_pure_bind, bind_assoc]
      apply Reads.name
      rw [pure_bind]
      exact hrest start

theorem readable_function {name : Option String} {params : List String} {stmts : List Stmt}
    {loc : Location} (hparams : params.Nodup) (h : ∀ st ∈ stmts, st.Readable σ { inFunction := true })
    : (Expr.function ⟨name, params, .block stmts, loc⟩).Readable σ where
  balanced := balanced_function h
  begins := ⟨_, _, rfl, rfl⟩
  plain _ := ⟨_, _, rfl, rfl⟩
  noArrow _ := .other nofun nofun
  loose := nofun
  tight _ := by
    apply leadAt_primary
    intro s p n ks hs hp
    have hliteral : Reads s p (functionLiteral (ofLevels n) false)
        (Function.print σ ⟨name, params, .block stmts, loc⟩ ++ ks) _ :=
      reads_functionLiteral nofun hparams h hs hp
    obtain ⟨rest, hrest⟩ : ∃ rest, Function.print σ ⟨name, params, .block stmts, loc⟩ ++ ks
        = .keyword .function :: rest := ⟨_, rfl⟩
    change Reads s p (primary (ofLevels n)) (Function.print σ _ ++ ks) _
    rw [hrest] at hliteral ⊢
    unfold primary
    apply Reads.peek
    intro t ht
    unfold literal?
    rw [ht]
    dsimp only
    apply hliteral.bind
    rintro f _ ⟨hf, rfl⟩
    refine .pure ⟨?_, rfl⟩
    rw [Expr.unplaced, Expr.unplaced, hf]

/-- The parameters of an arrow function are a name or a list in parentheses. -/
theorem params_cases (σ : Style) (params : List String)
    : (∃ param, params = [param] ∧ σ.params params = [.name param]) ∨
        σ.params params = parens (parameterTokens params) := by
  unfold Style.params
  split
  . next param =>
    split
    . exact .inl ⟨param, rfl, rfl⟩
    . exact .inr rfl
  . exact .inr rfl

/-- The value of an arrow function does not start like a block. -/
theorem begins_value {ks : List TokenKind} (hks : Begins (·.startsExpr) ks)
    : Begins (· ≠ .symbol .leftBrace) (guarded (startsWith (.symbol .leftBrace) ks) ks) := by
  obtain ⟨k, rest, rfl, -⟩ := hks
  unfold guarded startsWith
  split
  . exact ⟨_, _, rfl, nofun⟩
  . next hk =>
    refine ⟨k, rest, rfl, ?_⟩
    simpa using hk

theorem readable_arrow {params : List String} {value : Expr} {loc : Location} (hparams : params.Nodup)
    (h : value.Readable σ)
    : (Expr.function ⟨none, params, .expr value, loc⟩).Readable σ := by
  let isGuarded := startsWith (.symbol .leftBrace) (value.print σ)
  have hparamTokens : Balanced (σ.params params) ∧ Begins (·.startsExpr) (σ.params params) := by
    rcases params_cases σ params with ⟨param, -, htokens⟩ | htokens
    . rw [htokens]
      exact ⟨.single nofun nofun, _, _, rfl, rfl⟩
    . rw [htokens]
      exact ⟨(balanced_parameterTokens params).parens, _, _, rfl, rfl⟩
  apply readable_loose (by exact Nat.zero_le 1)
  . exact hparamTokens.1.append (.cons nofun nofun (h.balanced_guarded isGuarded))
  . exact hparamTokens.2.append _
  . intro s p n k ks hs hk hp
    have hrest : ∀ start : Location, Reads s p (do
          Parser.expectSymbol .arrow
          let body ← if ← Parser.checkSymbol .leftBrace then
              FunctionBody.block <$> braced (ofLevels n) { inFunction := true }
            else
              FunctionBody.expr <$> expression (ofLevels n)
          return .function ⟨none, params, body, start.through (← Parser.previous).loc⟩ : Parser Expr)
        (.symbol .arrow :: (guarded isGuarded (value.print σ) ++ k :: ks)) fun e' ks' =>
          e'.unplaced = (Expr.function ⟨none, params, .expr value, loc⟩).unplaced ∧ ks' = k :: ks := by
      intro start
      have hvalue : Reads s p (expression (ofLevels n)) (guarded isGuarded (value.print σ) ++ k :: ks) _ :=
        (h.readAt_guarded isGuarded).reads_expression hs hk hp
      obtain ⟨first, rest, hfirst, hbrace⟩ := begins_value h.begins
      rw [hfirst] at hvalue ⊢
      apply Reads.expectSymbol
      apply Reads.check
      rw [decide_eq_false hbrace, if_neg nofun, map_eq_pure_bind, bind_assoc]
      apply hvalue.bind
      rintro value' _ ⟨hvalue', rfl⟩
      rw [pure_bind]
      apply Reads.previous
      intro last
      refine .pure ⟨?_, rfl⟩
      simp only [Expr.unplaced, Function.unplaced, FunctionBody.unplaced, hvalue']
    change Reads s p (assignmentRule (ofLevels n)) (_ ++ _ ++ _) _
    rw [append_cons_append]
    unfold assignmentRule
    rcases params_cases σ params with ⟨param, rfl, htokens⟩ | htokens
    . rw [htokens, List.singleton_append]
      apply Reads.atArrowFunction_name
      rw [List.head?_cons, if_pos (decide_eq_true rfl)]
      unfold arrowFunction
      apply Reads.location
      intro start
      apply Reads.acceptSymbol_other (by exact nofun)
      rw [if_neg nofun]
      apply Reads.name
      exact hrest start
    . rw [htokens]
      apply Reads.atArrowFunction_parens hs (balanced_parameterTokens params)
      rw [List.head?_cons, if_pos (decide_eq_true rfl)]
      unfold arrowFunction
      apply Reads.location
      intro start
      rw [parens_append]
      apply Reads.acceptSymbol
      rw [if_pos rfl]
      apply reads_parameters hparams
      exact hrest start

end Expr
end ScriptHost
