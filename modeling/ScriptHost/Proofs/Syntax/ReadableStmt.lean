import ScriptHost.Proofs.Syntax.ReadableFunction

/-!
This module contains that statements are readable if their parts are, with one theorem for each form.
-/

namespace ScriptHost

open Grammar

namespace Stmt

variable {σ : Style} {jumps : Jumps} {stmts : List Stmt} {e : Expr} {loc : Location} {s : TokenStream}
  {p : Prop} {n : Nat} {k : TokenKind} {ks : List TokenKind}

/-- The reader of a statement behind the keyword that it starts with, if these jumps are allowed. -/
def keywordRule? (jumps : Jumps) : Keyword → Option (Option Grammar → Location → Parser Stmt)
  | .return => if jumps.inFunction then some returnStatement else none
  | .if => some fun lower => ifStatement lower jumps
  | .while => some fun lower => whileStatement lower jumps
  | .do => some fun lower => doStatement lower jumps
  | .for => some fun lower => forStatement lower jumps
  | .break => if jumps.inLoop then some fun _ loc => do Parser.semicolon; return .break loc else none
  | .continue => if jumps.inLoop then some fun _ loc => do Parser.semicolon; return .continue loc else none
  | .throw => some throwStatement
  | .try => some fun lower => tryStatement lower jumps
  | _ => none

theorem reads_keywordRule {word : Keyword} {rule : Option Grammar → Location → Parser Stmt}
    (hrule : keywordRule? jumps word = some rule) {lower : Option Grammar} {R : Stmt → List TokenKind → Prop}
    (h : ∀ loc, Reads s p (rule lower loc) ks R)
    : Reads s p (statementRule lower jumps) (.keyword word :: ks) R := by
  -- a jump is read only where it is allowed
  have hallowed : ∀ {allowed : Bool} {rule' : Option Grammar → Location → Parser Stmt} {fault : SyntaxFault}
      {loc : Location}, (if allowed then some rule' else none) = some rule →
      Reads s p (do
          unless allowed do
            Parser.fail fault loc
          Parser.advance
          rule' lower loc)
        (.keyword word :: ks) R := by
    intro allowed rule' fault loc hif
    cases allowed with
    | false => cases hif
    | true =>
      cases hif
      exact Reads.advanceKeyword (h loc)
  unfold statementRule
  apply Reads.peek
  rintro ⟨kind, loc⟩ rfl
  cases word
  all_goals first
    | exact hallowed hrule
    | cases hrule <;> exact Reads.advanceKeyword (h loc)

/-- A statement that starts with a keyword of its own, which has been taken when the rest is read. -/
theorem readable_keyword {st : Stmt} {word : Keyword} {rest : List TokenKind}
    {rule : Option Grammar → Location → Parser Stmt} (hkeyword : keywordRule? jumps word = some rule)
    (hprint : st.print σ = .keyword word :: rest) (hword : (TokenKind.keyword word).startsStmt)
    (hbalanced : Balanced rest)
    (hrule : ∀ {s : TokenStream} {p : Prop} {n : Nat} {k : TokenKind} {ks : List TokenKind} {loc : Location},
      s.Line → k.followsStmt → (p → st.need σ ≤ n) →
      Reads s p (rule (ofLevels n) loc) (rest ++ k :: ks) fun st' ks' =>
        st'.unplaced = st.unplaced ∧ ks' = k :: ks)
    : st.Readable σ jumps where
  balanced := by
    rw [hprint]
    exact .cons nofun nofun hbalanced
  begins := ⟨_, _, hprint, hword⟩
  reads := by
    intro s p n k ks hs hk hp
    rw [hprint]
    exact reads_keywordRule hkeyword fun loc => hrule hs hk hp

/-- An expression in parentheses. -/
theorem reads_condition (h : e.Readable σ) (hs : s.Line) (hp : p → e.need σ + 1 ≤ n)
    : Reads s p (condition (ofLevels n)) (parens (e.print σ) ++ ks) fun e' ks' =>
        e'.unplaced = e.unplaced ∧ ks' = ks := by
  rw [parens_append]
  unfold condition
  apply Reads.expectSymbol
  apply (h.readAt_zero.reads_expression hs (Expr.stops_zero rfl) hp).bind
  rintro e' _ ⟨he', rfl⟩
  apply Reads.expectSymbol
  exact .pure ⟨he', rfl⟩

theorem reads_body (h : ∀ st ∈ stmts, st.Readable σ jumps) (hs : s.Line)
    (hp : p → Stmt.needAll σ stmts ≤ n)
    : Reads s p (body (ofLevels n) jumps) (braces (Stmt.printAll σ stmts) ++ ks) fun stmts' ks' =>
        Stmt.unplacedAll stmts' = Stmt.unplacedAll stmts ∧ ks' = ks := by
  have hbraced : Reads s p (braced (ofLevels n) jumps) (braces (Stmt.printAll σ stmts) ++ ks) _ :=
    reads_braced h hs hp
  unfold body
  rw [braces_append] at hbraced ⊢
  apply Reads.check
  rw [if_pos (decide_eq_true rfl)]
  exact hbraced

/-! Conditionals and loops. -/

theorem readable_if {condition : Expr} {thenBranch : List Stmt} {elseBranch : Option (List Stmt)}
    (hcondition : condition.Readable σ) (hthen : ∀ st ∈ thenBranch, st.Readable σ jumps)
    (helse : ∀ stmts ∈ elseBranch, ∀ st ∈ stmts, st.Readable σ jumps)
    : (Stmt.if condition thenBranch elseBranch loc).Readable σ jumps := by
  apply readable_keyword rfl rfl rfl
  . apply (hcondition.balanced.parens.append (balanced_printAll hthen).braces).append
    cases elseBranch with
    | none => exact .nil
    | some stmts => exact .cons nofun nofun (balanced_printAll (helse stmts rfl)).braces
  . intro s p n k ks loc' hs hk hp
    have hbranches : p → max (Stmt.needAll σ thenBranch) (Stmt.needAll? σ elseBranch) ≤ n :=
      fun h => Nat.le_trans (Nat.le_max_right _ _) (hp h)
    rw [List.append_assoc, List.append_assoc]
    unfold ifStatement
    apply (reads_condition hcondition hs fun h => Nat.le_trans (Nat.le_max_left _ _) (hp h)).bind
    rintro condition' _ ⟨hcondition', rfl⟩
    apply (reads_body hthen hs fun h => Nat.le_trans (Nat.le_max_left _ _) (hbranches h)).bind
    rintro thenBranch' _ ⟨hthen', rfl⟩
    cases elseBranch with
    | none =>
      apply Reads.acceptKeyword_other (by
        rintro rfl
        cases hk)
      refine .pure ⟨?_, rfl⟩
      rw [Stmt.unplaced, Stmt.unplaced, hcondition', hthen']
    | some stmts =>
      apply Reads.acceptKeyword
      rw [if_pos rfl, map_eq_pure_bind, bind_assoc]
      apply (reads_body (helse stmts rfl) hs
        fun h => Nat.le_trans (Nat.le_max_right _ _) (hbranches h)).bind
      rintro stmts' _ ⟨helse', rfl⟩
      refine .pure ⟨?_, rfl⟩
      rw [Stmt.unplaced, Stmt.unplaced, hcondition', hthen', Stmt.unplacedAll?, Stmt.unplacedAll?, helse']

theorem readable_while {condition : Expr} {body : List Stmt} (hcondition : condition.Readable σ)
    (hbody : ∀ st ∈ body, st.Readable σ { jumps with inLoop := true })
    : (Stmt.while condition body loc).Readable σ jumps := by
  apply readable_keyword rfl rfl rfl
  . exact hcondition.balanced.parens.append (balanced_printAll hbody).braces
  . intro s p n k ks loc' hs hk hp
    rw [List.append_assoc]
    unfold whileStatement
    apply (reads_condition hcondition hs fun h => Nat.le_trans (Nat.le_max_left _ _) (hp h)).bind
    rintro condition' _ ⟨hcondition', rfl⟩
    apply (reads_body hbody hs fun h => Nat.le_trans (Nat.le_max_right _ _) (hp h)).bind
    rintro body' _ ⟨hbody', rfl⟩
    refine .pure ⟨?_, rfl⟩
    rw [Stmt.unplaced, Stmt.unplaced, hcondition', hbody']

theorem readable_doWhile {condition : Expr} {body : List Stmt} (hcondition : condition.Readable σ)
    (hbody : ∀ st ∈ body, st.Readable σ { jumps with inLoop := true })
    : (Stmt.doWhile body condition loc).Readable σ jumps := by
  apply readable_keyword rfl rfl rfl
  . have hend : Balanced [.symbol .semicolon] := .single nofun nofun
    have htest := Balanced.cons (k := .keyword .while) nofun nofun (hcondition.balanced.parens.append hend)
    exact (balanced_printAll hbody).braces.append htest
  . intro s p n k ks loc' hs hk hp
    rw [Expr.append_cons_append, List.append_assoc]
    unfold doStatement
    apply (reads_body hbody hs fun h => Nat.le_trans (Nat.le_max_right _ _) (hp h)).bind
    rintro body' _ ⟨hbody', rfl⟩
    apply Reads.expectKeyword
    apply (reads_condition hcondition hs fun h => Nat.le_trans (Nat.le_max_left _ _) (hp h)).bind
    rintro condition' _ ⟨hcondition', rfl⟩
    have hdiscard : discard (Parser.acceptSymbol .semicolon)
        = Parser.acceptSymbol .semicolon >>= fun _ => pure ⟨⟩ := rfl
    rw [hdiscard, bind_assoc]
    apply Reads.acceptSymbol
    refine .pure ⟨?_, rfl⟩
    rw [Stmt.unplaced, Stmt.unplaced, hcondition', hbody']

/-! Jumps. -/

theorem readable_break (hjumps : jumps.inLoop) : (Stmt.break loc).Readable σ jumps := by
  have hkeyword : keywordRule? jumps .break = some _ := if_pos hjumps
  apply readable_keyword hkeyword rfl rfl
  . exact .single nofun nofun
  . intro s p n k ks loc' hs hk hp
    apply Reads.semicolon
    exact .pure ⟨rfl, rfl⟩

theorem readable_continue (hjumps : jumps.inLoop) : (Stmt.continue loc).Readable σ jumps := by
  have hkeyword : keywordRule? jumps .continue = some _ := if_pos hjumps
  apply readable_keyword hkeyword rfl rfl
  . exact .single nofun nofun
  . intro s p n k ks loc' hs hk hp
    apply Reads.semicolon
    exact .pure ⟨rfl, rfl⟩

theorem startsExpr_ne {k : TokenKind} (hk : k.startsExpr) {k' : TokenKind} (hk' : k'.startsExpr = false)
    : k ≠ k' := by
  rintro rfl
  rw [hk] at hk'
  cases hk'

theorem readable_return {value : Option Expr} (hjumps : jumps.inFunction)
    (hvalue : ∀ e ∈ value, e.Readable σ)
    : (Stmt.return value loc).Readable σ jumps := by
  have hkeyword : keywordRule? jumps .return = some _ := if_pos hjumps
  apply readable_keyword hkeyword rfl rfl
  . refine Balanced.append ?_ (.single nofun nofun)
    cases value with
    | none => exact .nil
    | some e => exact (hvalue e rfl).balanced
  . intro s p n k ks loc' hs hk hp
    unfold returnStatement
    cases value with
    | none =>
      apply Reads.check
      apply Reads.check
      apply Reads.atEnd
      apply Reads.lineBreakBefore hs.oneLine
      change Reads s p (Parser.semicolon >>= fun _ => pure (Stmt.return none loc')) _ _
      apply Reads.semicolon
      exact .pure ⟨rfl, rfl⟩
    | some e =>
      have hread : Reads s p (expression (ofLevels n)) (e.print σ ++ .symbol .semicolon :: k :: ks) _ :=
        (hvalue e rfl).readAt_zero.reads_expression hs (Expr.stops_zero rfl) hp
      obtain ⟨first, rest, hfirst, hstarts⟩ := (hvalue e rfl).begins
      rw [List.append_assoc]
      change Reads s p _ (e.print σ ++ .symbol .semicolon :: k :: ks) _
      rw [hfirst] at hread ⊢
      apply Reads.check
      apply Reads.check
      apply Reads.atEnd
      apply Reads.lineBreakBefore hs.oneLine
      have hbare : ∀ {k}, k.startsExpr = false → decide (first = k) = false :=
        fun hk => decide_eq_false (startsExpr_ne hstarts hk)
      rw [hbare rfl, hbare rfl, hbare rfl]
      dsimp only
      rw [if_neg nofun, map_eq_pure_bind, bind_assoc]
      apply hread.bind
      rintro e' _ ⟨he', rfl⟩
      rw [pure_bind]
      apply Reads.semicolon
      refine .pure ⟨?_, rfl⟩
      rw [Stmt.unplaced, Stmt.unplaced, Expr.unplaced?, Expr.unplaced?, he']

theorem readable_throw {value : Expr} (hvalue : value.Readable σ)
    : (Stmt.throw value loc).Readable σ jumps := by
  apply readable_keyword rfl rfl rfl
  . exact hvalue.balanced.append (.single nofun nofun)
  . intro s p n k ks loc' hs hk hp
    have hread : Reads s p (expression (ofLevels n)) (value.print σ ++ .symbol .semicolon :: k :: ks) _ :=
      hvalue.readAt_zero.reads_expression hs (Expr.stops_zero rfl) hp
    obtain ⟨first, rest, hfirst, -⟩ := hvalue.begins
    rw [List.append_assoc]
    change Reads s p _ (value.print σ ++ .symbol .semicolon :: k :: ks) _
    unfold throwStatement
    rw [hfirst] at hread ⊢
    apply Reads.lineBreakBefore hs.oneLine
    rw [if_neg nofun]
    apply hread.bind
    rintro value' _ ⟨hvalue', rfl⟩
    apply Reads.semicolon
    refine .pure ⟨?_, rfl⟩
    rw [Stmt.unplaced, Stmt.unplaced, hvalue']

/-! Handlers. -/

theorem balanced_param (param : Option String)
    : Balanced (param.elim [] fun name => parens [.name name]) := by
  cases param with
  | none => exact .nil
  | some name =>
    have hname : Balanced [.name name] := .single nofun nofun
    exact hname.parens

theorem reads_handlerParam {param : Option String} (hk : k ≠ .symbol .leftParen)
    : Reads s p handlerParam ((param.elim [] fun name => parens [.name name]) ++ k :: ks)
        fun param' ks' => param' = param ∧ ks' = k :: ks := by
  unfold handlerParam
  cases param with
  | none =>
    apply Reads.acceptSymbol_other hk
    exact .pure ⟨rfl, rfl⟩
  | some name =>
    apply Reads.acceptSymbol
    rw [if_pos rfl]
    apply Reads.name
    apply Reads.expectSymbol
    exact .pure ⟨rfl, rfl⟩

/-- The statements of a handler or a finalizer, or of none. -/
theorem reads_finalizer {finalizer : Option (List Stmt)}
    (h : ∀ stmts ∈ finalizer, ∀ st ∈ stmts, st.Readable σ jumps) (hs : s.Line) (hk : k.followsStmt)
    (hp : p → Stmt.needAll? σ finalizer ≤ n)
    {β : Type} {f : Option (List Stmt) → Parser β} {R : β → List TokenKind → Prop}
    (hf : ∀ finalizer', Stmt.unplacedAll? finalizer' = Stmt.unplacedAll? finalizer →
      Reads s p (f finalizer') (k :: ks) R)
    : Reads s p (do
          let finalizer' ← if ← Parser.acceptKeyword .finally then
              some <$> braced (ofLevels n) jumps
            else pure none
          f finalizer')
        (Stmt.printFinally σ finalizer ++ k :: ks) R := by
  cases finalizer with
  | none =>
    apply Reads.acceptKeyword_other (by
      rintro rfl
      cases hk)
    exact hf none rfl
  | some stmts =>
    apply Reads.acceptKeyword
    rw [if_pos rfl, map_eq_pure_bind, bind_assoc]
    apply (reads_braced (h stmts rfl) hs hp).bind
    rintro stmts' _ ⟨hstmts', rfl⟩
    apply hf
    rw [Stmt.unplacedAll?, Stmt.unplacedAll?, hstmts']

theorem isNone_unplacedAll? (stmts? : Option (List Stmt))
    : (Stmt.unplacedAll? stmts?).isNone = stmts?.isNone := by
  cases stmts? <;> rfl

theorem isNone_handler_unplaced? (handler : Option Handler)
    : (Handler.unplaced? handler).isNone = handler.isNone := by
  rcases handler with _ | ⟨param, body⟩ <;> rfl

theorem readable_try {block : List Stmt} {handler : Option Handler} {finalizer : Option (List Stmt)}
    (hparts : handler.isSome ∨ finalizer.isSome) (hblock : ∀ st ∈ block, st.Readable σ jumps)
    (hhandler : ∀ h ∈ handler, ∀ st ∈ h.body, st.Readable σ jumps)
    (hfinalizer : ∀ stmts ∈ finalizer, ∀ st ∈ stmts, st.Readable σ jumps)
    : (Stmt.try block handler finalizer loc).Readable σ jumps := by
  apply readable_keyword rfl rfl rfl
  . have hhandler' : Balanced (Handler.print? σ handler) := by
      cases handler with
      | none => exact .nil
      | some h =>
        have hbody := balanced_printAll (hhandler h rfl)
        obtain ⟨param, body⟩ := h
        exact .cons nofun nofun ((balanced_param param).append hbody.braces)
    have hfinalizer' : Balanced (Stmt.printFinally σ finalizer) := by
      cases finalizer with
      | none => exact .nil
      | some stmts => exact .cons nofun nofun (balanced_printAll (hfinalizer stmts rfl)).braces
    exact ((balanced_printAll hblock).braces.append hhandler').append hfinalizer'
  . intro s p n k ks loc' hs hk hp
    have hparts' : p → max (Handler.need? σ handler) (Stmt.needAll? σ finalizer) ≤ n :=
      fun h => Nat.le_trans (Nat.le_max_right _ _) (hp h)
    have hhandler' : p → Handler.need? σ handler ≤ n :=
      fun h => Nat.le_trans (Nat.le_max_left _ _) (hparts' h)
    have hfinalizer' : p → Stmt.needAll? σ finalizer ≤ n :=
      fun h => Nat.le_trans (Nat.le_max_right _ _) (hparts' h)
    rw [List.append_assoc, List.append_assoc]
    unfold tryStatement
    apply (reads_braced hblock hs fun h => Nat.le_trans (Nat.le_max_left _ _) (hp h)).bind
    rintro block' _ ⟨hblock', rfl⟩
    have hrest : ∀ handler', Handler.unplaced? handler' = Handler.unplaced? handler → Reads s p (do
          let finalizer' ← if ← Parser.acceptKeyword .finally then
              some <$> braced (ofLevels n) jumps
            else pure none
          if handler'.isNone && finalizer'.isNone then
            Parser.fail .missingHandler (← Parser.location)
          return .try block' handler' finalizer' loc' : Parser Stmt)
        (Stmt.printFinally σ finalizer ++ k :: ks) fun st' ks' =>
          st'.unplaced = (Stmt.try block handler finalizer loc).unplaced ∧ ks' = k :: ks := by
      intro handler' heq
      apply reads_finalizer hfinalizer hs hk hfinalizer'
      intro finalizer' heq'
      have hsome : (handler'.isNone && finalizer'.isNone) = false := by
        rw [← isNone_handler_unplaced? handler', heq, isNone_handler_unplaced?,
          ← isNone_unplacedAll? finalizer', heq', isNone_unplacedAll?]
        rcases hparts with hsome | hsome
        . rw [Option.isNone_eq_false_iff.2 hsome, Bool.false_and]
        . rw [Option.isNone_eq_false_iff.2 hsome, Bool.and_false]
      rw [hsome, if_neg nofun]
      refine .pure ⟨?_, rfl⟩
      rw [Stmt.unplaced, Stmt.unplaced, hblock', heq, heq']
    cases handler with
    | none =>
      obtain ⟨stmts, rfl⟩ := Option.isSome_iff_exists.1 (hparts.resolve_left nofun)
      apply Reads.acceptKeyword_other (by exact nofun)
      exact hrest none rfl
    | some h =>
      have hbody := hhandler h rfl
      obtain ⟨param, body⟩ := h
      have htokens : Handler.print? σ (some ⟨param, body⟩) ++ (Stmt.printFinally σ finalizer ++ k :: ks)
          = .keyword .catch :: ((param.elim [] fun name => parens [.name name]) ++
            (braces (Stmt.printAll σ body) ++ (Stmt.printFinally σ finalizer ++ k :: ks))) := by
        simp [Handler.print?]
      rw [htokens]
      apply Reads.acceptKeyword
      rw [if_pos rfl]
      apply (reads_handlerParam (by exact nofun)).bind
      rintro _ _ ⟨rfl, rfl⟩
      apply (reads_braced hbody hs hhandler').bind
      rintro body' _ ⟨hbody', rfl⟩
      apply hrest
      rw [Handler.unplaced?, Handler.unplaced?, hbody']

/-! Declarations. -/

theorem declarator_printEach_eq_map (σ : Style) (ds : List Declarator)
    : Declarator.printEach σ ds = ds.map fun d => .name d.name :: Declarator.printValue σ d.init := by
  induction ds with
  | nil => rfl
  | cons d ds ih =>
    cases d
    rw [Declarator.printEach, ih, List.map_cons]

theorem declarator_unplacedAll_eq_map (ds : List Declarator)
    : Declarator.unplacedAll ds = ds.map fun d => ⟨d.name, Expr.unplaced? d.init, {}⟩ := by
  induction ds with
  | nil => rfl
  | cons d ds ih =>
    cases d
    rw [Declarator.unplacedAll, ih, List.map_cons]

theorem need_le_declarator_needAll {ds : List Declarator} {d : Declarator} (hd : d ∈ ds)
    : Expr.need? σ d.init ≤ Declarator.needAll σ ds := by
  induction ds with
  | nil => cases hd
  | cons d' ds ih =>
    cases d'
    rw [Declarator.needAll]
    rcases List.mem_cons.1 hd with rfl | hd
    . exact Nat.le_max_left _ _
    . exact Nat.le_trans (ih hd) (Nat.le_max_right _ _)

theorem balanced_declarators {ds : List Declarator} (h : ∀ d ∈ ds, ∀ e ∈ d.init, e.Readable σ)
    : Balanced (commas (Declarator.printEach σ ds)) := by
  rw [declarator_printEach_eq_map]
  apply Balanced.commas
  intro ts hts
  obtain ⟨d, hd, rfl⟩ := List.mem_map.1 hts
  refine .cons nofun nofun ?_
  cases hinit : d.init with
  | none => exact .nil
  | some e => exact .cons nofun nofun (h d hd e hinit).balanced

theorem reads_declarator {kind : DeclareKind} {d : Declarator} (hconst : kind = .const → d.init.isSome)
    (h : ∀ e ∈ d.init, e.Readable σ) (hs : s.Line) (hp : p → Expr.need? σ d.init ≤ n)
    : Reads.ReadsItem s p (.symbol .semicolon) (fun d => .name d.name :: Declarator.printValue σ d.init)
        (fun d => (⟨d.name, Expr.unplaced? d.init, {}⟩ : Declarator)) (declarator (ofLevels n) kind) d := by
  intro k ks hk
  have hstops : k.Stops 0 := by rcases hk with rfl | rfl <;> exact Expr.stops_zero rfl
  unfold declarator
  apply Reads.location
  intro loc
  apply Reads.name
  have hinit : ∀ init, Expr.unplaced? init = Expr.unplaced? d.init →
      Reads s p (do
        if kind = .const && init.isNone then
          Parser.fail .missingInitializer loc
        return ⟨d.name, init, loc⟩ : Parser Declarator) (k :: ks) fun d' ks' =>
          (⟨d'.name, Expr.unplaced? d'.init, {}⟩ : Declarator) = ⟨d.name, Expr.unplaced? d.init, {}⟩ ∧
            ks' = k :: ks := by
    intro init heq
    have hsome : (decide (kind = .const) && init.isNone) = false := by
      have hnone : ∀ e? : Option Expr, (Expr.unplaced? e?).isNone = e?.isNone := by
        rintro (_ | e) <;> rfl
      rw [← hnone init, heq, hnone]
      by_cases hkind : kind = .const
      . rw [Option.isNone_eq_false_iff.2 (hconst hkind), Bool.and_false]
      . rw [decide_eq_false hkind, Bool.false_and]
    rw [hsome, if_neg nofun]
    refine .pure ⟨?_, rfl⟩
    rw [heq]
  cases hvalue : d.init with
  | none =>
    have hassign : k ≠ .symbol .assign := Reads.ne_of_stops hstops _ rfl (Nat.le_refl 0)
    apply Reads.acceptSymbol_other hassign
    exact hinit none (by rw [hvalue])
  | some e =>
    rw [hvalue] at hp h
    apply Reads.acceptSymbol
    rw [if_pos rfl, map_eq_pure_bind, bind_assoc]
    apply ((h e rfl).readAt_zero.reads_expression hs hstops hp).bind
    rintro e' _ ⟨he', rfl⟩
    rw [pure_bind]
    apply hinit
    rw [hvalue, Expr.unplaced?, Expr.unplaced?, he']

/-- A declaration without its semicolon. -/
theorem reads_declaration {kind : DeclareKind} {ds : List Declarator} (hne : ds ≠ [])
    (hconst : kind = .const → ∀ d ∈ ds, d.init.isSome) (h : ∀ d ∈ ds, ∀ e ∈ d.init, e.Readable σ)
    (hs : s.Line) (hp : p → Declarator.needAll σ ds ≤ n)
    : Reads s p (declaration (ofLevels n) kind)
        (kind.kind :: (commas (Declarator.printEach σ ds) ++ .symbol .semicolon :: ks)) fun st' ks' =>
          st'.unplaced = (Stmt.declare kind ds loc).unplaced ∧ ks' = .symbol .semicolon :: ks := by
  have hkind : kind.kind ≠ .endOfInput := by cases kind <;> exact nofun
  obtain ⟨d, ds, rfl⟩ := List.exists_cons_of_ne_nil hne
  rw [declarator_printEach_eq_map]
  unfold declaration
  apply Reads.location
  intro loc'
  apply Reads.advance hkind
  have hitem : ∀ d' ∈ d :: ds,
      Reads.ReadsItem s p (.symbol .semicolon) _ _ (declarator (ofLevels n) kind) d' :=
    fun d' hd' => reads_declarator (fun hkind => hconst hkind d' hd') (h d' hd') hs
      fun h => Nat.le_trans (need_le_declarator_needAll hd') (hp h)
  apply (Reads.commaSeparated (by exact nofun) hitem (by exact fun _ _ => nofun)).bind
  rintro ds' _ ⟨hds', rfl⟩
  refine .pure ⟨?_, rfl⟩
  rw [Stmt.unplaced, Stmt.unplaced, declarator_unplacedAll_eq_map, declarator_unplacedAll_eq_map, hds']

theorem readable_declare {kind : DeclareKind} {ds : List Declarator} (hne : ds ≠ [])
    (hconst : kind = .const → ∀ d ∈ ds, d.init.isSome) (h : ∀ d ∈ ds, ∀ e ∈ d.init, e.Readable σ)
    : (Stmt.declare kind ds loc).Readable σ jumps where
  balanced := by
    refine .cons ?_ ?_ ((balanced_declarators h).append (.single nofun nofun))
    . cases kind <;> exact nofun
    . cases kind <;> exact nofun
  begins := by
    refine ⟨_, _, rfl, ?_⟩
    cases kind <;> rfl
  reads := by
    intro s p n k ks hs hk hp
    have htokens : (Stmt.declare kind ds loc).print σ ++ k :: ks
        = kind.kind :: (commas (Declarator.printEach σ ds) ++ .symbol .semicolon :: k :: ks) := by
      simp [Stmt.print]
    rw [htokens]
    have hrest : Reads s p (do
          let declared ← declaration (ofLevels n) kind
          Parser.semicolon
          return declared)
        (kind.kind :: (commas (Declarator.printEach σ ds) ++ .symbol .semicolon :: k :: ks))
        fun st' ks' => st'.unplaced = (Stmt.declare kind ds loc).unplaced ∧ ks' = k :: ks := by
      apply (reads_declaration hne hconst h hs hp).bind
      rintro st' _ ⟨hst', rfl⟩
      apply Reads.semicolon
      exact .pure ⟨hst', rfl⟩
    unfold statementRule
    apply Reads.peek
    rintro ⟨kind', loc'⟩ rfl
    cases kind <;> exact hrest

theorem readable_function {f : Function} (hname : f.name.isSome) (hblock : f.body.isBlock)
    (hparams : f.params.Nodup) (hbody : f.body.Readable σ)
    : (Stmt.function f).Readable σ jumps := by
  obtain ⟨name, params, stmts | value, loc⟩ := f
  . have hbalanced : Balanced (Function.print σ ⟨name, params, .block stmts, loc⟩) :=
      Expr.balanced_function hbody
    refine ⟨hbalanced, ⟨_, _, rfl, rfl⟩, ?_⟩
    intro s p n k ks hs hk hp
    have hliteral : Reads s p (functionLiteral (ofLevels n) true)
        (Function.print σ ⟨name, params, .block stmts, loc⟩ ++ k :: ks) _ :=
      Expr.reads_functionLiteral (fun _ => hname) hparams hbody hs hp
    obtain ⟨rest, hrest⟩ : ∃ rest, Function.print σ ⟨name, params, .block stmts, loc⟩ ++ k :: ks
        = .keyword .function :: rest := ⟨_, rfl⟩
    rw [Stmt.print]
    rw [hrest] at hliteral ⊢
    unfold statementRule
    apply Reads.peek
    rintro ⟨kind, loc⟩ rfl
    apply hliteral.bind
    rintro f _ ⟨hf, rfl⟩
    refine .pure ⟨?_, rfl⟩
    rw [Stmt.unplaced, Stmt.unplaced, hf]
  . cases hblock

/-! Expressions, blocks and empty statements. -/

/-- A statement that starts like an expression, and like no other statement, is one. -/
theorem reads_exprStmt {lower : Option Grammar} {R : Stmt → List TokenKind → Prop} (hk : k.startsExpr)
    (hbrace : k ≠ .symbol .leftBrace) (hfunction : k ≠ .keyword .function)
    (h : ∀ loc, Reads s p (do
        let value ← expression lower
        Parser.semicolon
        return .expr value loc) (k :: ks) R)
    : Reads s p (statementRule lower jumps) (k :: ks) R := by
  unfold statementRule
  apply Reads.peek
  rintro ⟨kind, loc⟩ rfl
  dsimp only at *
  split <;>
    first | exact h loc | exact absurd rfl hbrace | exact absurd rfl hfunction | cases hk

theorem begins_exprStmt {ks : List TokenKind} (hks : Begins (·.startsExpr) ks) (isGuarded : Bool)
    (hguarded : isStatementStart ks → isGuarded)
    : ∃ k rest, guarded isGuarded ks = k :: rest ∧ k.startsExpr ∧ k ≠ .symbol .leftBrace ∧
        k ≠ .keyword .function := by
  obtain ⟨k, rest, rfl, hk⟩ := hks
  unfold guarded
  cases isGuarded with
  | true => exact ⟨_, _, rfl, rfl, nofun, nofun⟩
  | false =>
    refine ⟨k, rest, rfl, hk, ?_, ?_⟩
    . rintro rfl
      cases hguarded rfl
    . rintro rfl
      cases hguarded rfl

theorem readable_expr (h : e.Readable σ) : (Stmt.expr e loc).Readable σ jumps := by
  obtain ⟨first, rest, hfirst, hstarts, hbrace, hfunction⟩ :=
    begins_exprStmt h.begins (isStatementStart (e.print σ)) id
  refine ⟨(h.balanced_guarded _).append (.single nofun nofun), ?_, ?_⟩
  . refine Begins.append ⟨first, rest, hfirst, ?_⟩ _
    unfold TokenKind.startsStmt
    rw [decide_eq_true_iff]
    intro hmem
    simp only [List.mem_cons, List.not_mem_nil, or_false] at hmem
    rcases hmem with rfl | rfl | rfl | rfl | rfl <;> cases hstarts
  . intro s p n k ks hs hk hp
    have hread : Reads s p (expression (ofLevels n))
        (guarded (isStatementStart (e.print σ)) (e.print σ) ++ .symbol .semicolon :: k :: ks) _ :=
      (h.readAt_guarded _).reads_expression hs (Expr.stops_zero rfl) hp
    rw [Stmt.print, List.append_assoc]
    change Reads s p _ (_ ++ .symbol .semicolon :: k :: ks) _
    rw [hfirst] at hread ⊢
    apply reads_exprStmt hstarts hbrace hfunction
    intro loc'
    apply hread.bind
    rintro e' _ ⟨he', rfl⟩
    apply Reads.semicolon
    refine .pure ⟨?_, rfl⟩
    rw [Stmt.unplaced, Stmt.unplaced, he']

theorem readable_block (h : ∀ st ∈ stmts, st.Readable σ jumps) : (Stmt.block stmts loc).Readable σ jumps where
  balanced := (balanced_printAll h).braces
  begins := ⟨_, _, rfl, rfl⟩
  reads := by
    intro s p n k ks hs hk hp
    have hbraced : Reads s p (braced (ofLevels n) jumps) (braces (Stmt.printAll σ stmts) ++ k :: ks) _ :=
      reads_braced h hs hp
    rw [Stmt.print]
    rw [braces_append] at hbraced ⊢
    unfold statementRule
    apply Reads.peek
    rintro ⟨kind, loc'⟩ rfl
    apply hbraced.bind
    rintro stmts' _ ⟨hstmts', rfl⟩
    refine .pure ⟨?_, rfl⟩
    rw [Stmt.unplaced, Stmt.unplaced, hstmts']

theorem readable_empty : (Stmt.empty loc).Readable σ jumps where
  balanced := .single nofun nofun
  begins := ⟨_, _, rfl, rfl⟩
  reads := by
    intro s p n k ks hs hk hp
    unfold statementRule
    apply Reads.peek
    rintro ⟨kind, loc'⟩ rfl
    apply Reads.advanceSymbol
    exact .pure ⟨rfl, rfl⟩

/-! Loops with a head. -/

theorem reads_optionalExpression {e? : Option Expr} {close : Symbol} (h : ∀ e ∈ e?, e.Readable σ)
    (hclose : (TokenKind.symbol close).continues? = none)
    (hstarts : (TokenKind.symbol close).startsExpr = false) (hs : s.Line)
    (hp : p → Expr.need? σ e? ≤ n)
    : Reads s p (optionalExpression (ofLevels n) close) (Expr.print? σ e? ++ .symbol close :: ks)
        fun e?' ks' => Expr.unplaced? e?' = Expr.unplaced? e? ∧ ks' = .symbol close :: ks := by
  unfold optionalExpression
  cases e? with
  | none =>
    apply Reads.check
    rw [if_pos (decide_eq_true rfl)]
    exact .pure ⟨rfl, rfl⟩
  | some e =>
    have hread : Reads s p (expression (ofLevels n)) (e.print σ ++ .symbol close :: ks) _ :=
      (h e rfl).readAt_zero.reads_expression hs (Expr.stops_zero hclose) hp
    obtain ⟨first, rest, hfirst, hk⟩ := (h e rfl).begins
    rw [Expr.print?]
    rw [hfirst] at hread ⊢
    apply Reads.check
    rw [decide_eq_false (startsExpr_ne hk hstarts), if_neg nofun]
    apply hread.bind
    rintro e' _ ⟨he', rfl⟩
    refine .pure ⟨?_, rfl⟩
    rw [Expr.unplaced?, Expr.unplaced?, he']

/-- The parts of what stands in front of a loop are readable. -/
def InitReadable (σ : Style) : Option Stmt → Prop
  | none => True
  | some (.declare kind ds _) =>
    ds ≠ [] ∧ (kind = .const → ∀ d ∈ ds, d.init.isSome) ∧ ∀ d ∈ ds, ∀ e ∈ d.init, e.Readable σ
  | some (.expr value _) => value.Readable σ
  | some _ => False

theorem balanced_printInit {init : Option Stmt} (h : InitReadable σ init)
    : Balanced (Stmt.printInit σ init) := by
  unfold InitReadable at h
  split at h
  . exact .nil
  . next kind ds _ =>
    refine .cons ?_ ?_ (balanced_declarators h.2.2)
    . cases kind <;> exact nofun
    . cases kind <;> exact nofun
  . exact h.balanced_guarded _
  . cases h

theorem reads_forInit {init : Option Stmt} (h : InitReadable σ init) (hs : s.Line)
    (hp : p → Stmt.needInit σ init ≤ n)
    : Reads s p (forInit (ofLevels n)) (Stmt.printInit σ init ++ .symbol .semicolon :: ks)
        fun init' ks' => Stmt.unplaced? init' = Stmt.unplaced? init ∧ ks' = .symbol .semicolon :: ks := by
  unfold InitReadable at h
  unfold forInit
  split at h
  . apply Reads.peek
    intro t ht
    rw [if_pos ht]
    exact .pure ⟨rfl, rfl⟩
  . next kind ds loc =>
    obtain ⟨hne, hconst, hds⟩ := h
    have hread : Reads s p (declaration (ofLevels n) kind)
        (kind.kind :: (commas (Declarator.printEach σ ds) ++ .symbol .semicolon :: ks)) fun st' ks' =>
          st'.unplaced = (Stmt.declare kind ds loc).unplaced ∧ ks' = .symbol .semicolon :: ks :=
      reads_declaration hne hconst hds hs hp
    rw [Stmt.printInit]
    apply Reads.peek
    intro t ht
    have hkind : declareKind? t.kind = some kind := by
      rw [ht]
      cases kind <;> rfl
    have hsemicolon : t.kind ≠ .symbol .semicolon := by
      rw [ht]
      cases kind <;> exact nofun
    rw [if_neg hsemicolon, hkind]
    apply hread.bind
    rintro st' _ ⟨hst', rfl⟩
    refine .pure ⟨?_, rfl⟩
    rw [Stmt.unplaced?, Stmt.unplaced?, hst']
  . next value loc =>
    let isGuarded := σ.guardInit && isStatementStart (value.print σ)
    have hread : Reads s p (expression (ofLevels n))
        (guarded isGuarded (value.print σ) ++ .symbol .semicolon :: ks) _ :=
      (h.readAt_guarded isGuarded).reads_expression hs (Expr.stops_zero rfl) hp
    obtain ⟨first, rest, hfirst, hstarts⟩ := Expr.begins_guarded h.begins isGuarded
    change Reads s p _ (guarded isGuarded (value.print σ) ++ .symbol .semicolon :: ks) _
    rw [hfirst] at hread ⊢
    apply Reads.peek
    intro t ht
    have hkind : declareKind? t.kind = none := by
      rw [ht]
      unfold declareKind?
      split <;> first | rfl | cases hstarts
    have hsemicolon : t.kind ≠ .symbol .semicolon := by
      rw [ht]
      exact startsExpr_ne hstarts rfl
    rw [if_neg hsemicolon, hkind]
    apply hread.bind
    rintro value' _ ⟨hvalue', rfl⟩
    refine .pure ⟨?_, rfl⟩
    rw [Stmt.unplaced?, Stmt.unplaced?, Stmt.unplaced, Stmt.unplaced, hvalue']
  . cases h

theorem readable_for {init : Option Stmt} {condition update : Option Expr} {body : List Stmt}
    (hinit : InitReadable σ init) (hcondition : ∀ e ∈ condition, e.Readable σ)
    (hupdate : ∀ e ∈ update, e.Readable σ)
    (hbody : ∀ st ∈ body, st.Readable σ { jumps with inLoop := true })
    : (Stmt.for init condition update body loc).Readable σ jumps := by
  have hbalanced? : ∀ {e? : Option Expr}, (∀ e ∈ e?, e.Readable σ) → Balanced (Expr.print? σ e?) := by
    rintro (_ | e) h
    . exact .nil
    . exact (h e rfl).balanced
  apply readable_keyword rfl rfl rfl
  . have hsemicolon : ∀ {ks}, Balanced ks → Balanced (.symbol .semicolon :: ks) := .cons nofun nofun
    have hrest := (hbalanced? hcondition).append (hsemicolon (hbalanced? hupdate))
    have hhead := (balanced_printInit hinit).append (hsemicolon hrest)
    exact hhead.parens.append (balanced_printAll hbody).braces
  . intro s p n k ks loc' hs hk hp
    have hneed : p → Stmt.needInit σ init ≤ n ∧ Expr.need? σ condition ≤ n ∧ Expr.need? σ update ≤ n ∧
        Stmt.needAll σ body ≤ n := by
      intro h
      have hle := hp h
      simpa only [Stmt.need, Nat.max_le] using hle
    rw [List.append_assoc, parens_append, Expr.append_cons_append, Expr.append_cons_append]
    unfold forStatement
    apply Reads.expectSymbol
    apply (reads_forInit hinit hs fun h => (hneed h).1).bind
    rintro init' _ ⟨hinit', rfl⟩
    apply Reads.expectSymbol
    apply (reads_optionalExpression hcondition rfl rfl hs fun h => (hneed h).2.1).bind
    rintro condition' _ ⟨hcondition', rfl⟩
    apply Reads.expectSymbol
    apply (reads_optionalExpression hupdate rfl rfl hs fun h => (hneed h).2.2.1).bind
    rintro update' _ ⟨hupdate', rfl⟩
    apply Reads.expectSymbol
    apply (reads_body hbody hs fun h => (hneed h).2.2.2).bind
    rintro body' _ ⟨hbody', rfl⟩
    refine .pure ⟨?_, rfl⟩
    rw [Stmt.unplaced, Stmt.unplaced, hinit', hcondition', hupdate', hbody']

end Stmt

end ScriptHost
