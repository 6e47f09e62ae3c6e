import ScriptHost.Proofs.Syntax.MirrorsExpr

/-!
This module contains that the rules for statements, and so all rules of the grammar, have the same results on a
stretch of tokens in two scripts.
-/

namespace ScriptHost

open Grammar

namespace Window

variable {w : Window} {k n n' : Nat}

namespace MirrorsAt

variable (h : w.MirrorsAt n)
include h

theorem body (jumps : Jumps)
    : w.Mirrors w.width k (body (ofLevels n) jumps) (body (ofLevels n') jumps) (List.Forall₂ w.MovesStmt) := by
  refine .of_lt 1 fun hk => .checkSymbol (by omega) fun found => .ite Iff.rfl (fun _ => ?_) fun _ => ?_
  . exact (h.braced jumps).mono (Nat.le_succ _) fun _ _ => id
  . exact .bind 1 0 (h.nestedStatement n' k jumps) fun st st' i hst _ _ => .pure (.cons hst .nil)

theorem condition : w.Mirrors w.width k (condition (ofLevels n)) (condition (ofLevels n')) w.MovesExpr := by
  refine .of_lt 1 fun hk => .expectSymbol (by omega) ?_
  refine .bind 1 1 (h.innerExpression (by omega)) fun e e' i he _ hi => ?_
  exact .expectSymbol (by omega) (.pure he)

theorem declarator (kind : DeclareKind)
    : w.Mirrors w.width k (declarator (ofLevels n) kind) (declarator (ofLevels n') kind)
        (Declarator.Moved w.origin.offset w.goal.offset) := by
  refine .of_lt 1 fun hk => ?_
  unfold Grammar.declarator
  dsimp only
  refine .location (by omega) fun loc loc' hloc => .name (by omega) fun name => .ifSymbol (by omega) ?_ ?_
  . rw [bind_map_left, bind_map_left]
    refine .bind 1 0 (h.innerExpression (by omega)) fun e e' i he _ _ => ?_
    refine .ite Iff.rfl (fun _ => .fail_bind) fun _ => .pure ?_
    exact ⟨rfl, .some he, hloc⟩
  . rw [pure_bind, pure_bind]
    refine .ite Iff.rfl (fun _ => .fail_bind) fun _ => .pure ?_
    exact ⟨rfl, .none, hloc⟩

theorem declaration (kind : DeclareKind) (hkind : (w.source.get (w.start + k)).kind ≠ .endOfInput)
    : w.Mirrors w.width k (declaration (ofLevels n) kind) (declaration (ofLevels n') kind) w.MovesStmt := by
  refine .of_lt 1 fun hk => .location (by omega) fun loc loc' hloc => .advance (by omega) hkind ?_
  refine .bind 1 0 (.commaSeparated fun k => h.declarator kind) fun ds ds' i hds _ _ => .pure ?_
  obtain ⟨hunplaced, hlocations⟩ := Declarator.moved_all hds
  exact ⟨by simp only [Stmt.unplaced, hunplaced], .cons hloc hlocations⟩

section

variable {loc loc' : Location} (hloc : w.Moves loc loc')
include hloc

theorem returnStatement (hpos : 0 < k)
    : w.Mirrors w.width k (returnStatement (ofLevels n) loc) (returnStatement (ofLevels n') loc') w.MovesStmt := by
  refine .of_lt 0 fun hk => ?_
  unfold Grammar.returnStatement
  dsimp only
  have hend : ∀ {value value' : Option Expr} {i : Nat}, Option.Rel w.MovesExpr value value' → k ≤ i → i < w.width →
      w.Mirrors w.width i
        (do
          Parser.semicolon
          return .return value loc)
        (do
          Parser.semicolon
          return .return value' loc') w.MovesStmt := by
    intro value value' i hvalue hki hi
    obtain ⟨hunplaced, hlocations⟩ := Expr.moved? hvalue
    have hst : w.MovesStmt (.return value loc) (.return value' loc') :=
      ⟨by simp only [Stmt.unplaced, hunplaced], .cons hloc hlocations⟩
    exact .semicolon hi (by omega) (.pure hst) (.pure hst)
  refine .checkSymbol hk fun semicolon => .checkSymbol hk fun brace => .atEnd hk fun atEnd =>
    .lineBreakBefore hk hpos fun newline => .ite Iff.rfl (fun _ => ?_) fun _ => ?_
  . rw [pure_bind, pure_bind]
    exact hend .none (Nat.le_refl k) hk
  . rw [bind_map_left, bind_map_left]
    exact .bind 1 0 (h.innerExpression (by omega)) fun e e' i he hi hlt => hend (.some he) (by omega) hlt

theorem ifStatement (jumps : Jumps)
    : w.Mirrors w.width k (ifStatement (ofLevels n) jumps loc) (ifStatement (ofLevels n') jumps loc')
        w.MovesStmt := by
  unfold Grammar.ifStatement
  dsimp only
  refine .bind 1 0 h.condition fun test test' i htest _ _ => .bind 1 0 (h.body jumps) fun yes yes' j hyes _ hj => ?_
  obtain ⟨hunplaced, hlocations⟩ := Stmt.moved_all hyes
  refine .ifKeyword hj ?_ ?_
  . rw [bind_map_left, bind_map_left]
    refine .bind 1 0 (h.body jumps) fun no no' _ hno _ _ => .pure ?_
    obtain ⟨hunplaced', hlocations'⟩ := Stmt.moved_all hno
    exact ⟨by simp only [Stmt.unplaced, Stmt.unplacedAll?, htest.unplaced, hunplaced, hunplaced'],
      .cons hloc (List.rel_append (List.rel_append htest.locations hlocations) hlocations')⟩
  . rw [pure_bind, pure_bind]
    exact .pure ⟨by simp only [Stmt.unplaced, Stmt.unplacedAll?, htest.unplaced, hunplaced],
      .cons hloc (List.rel_append (List.rel_append htest.locations hlocations) .nil)⟩

theorem whileStatement (jumps : Jumps)
    : w.Mirrors w.width k (whileStatement (ofLevels n) jumps loc) (whileStatement (ofLevels n') jumps loc')
        w.MovesStmt := by
  refine .bind 1 0 h.condition fun test test' i htest _ _ => .bind 1 0 (h.body _) fun body body' j hbody _ _ => .pure ?_
  obtain ⟨hunplaced, hlocations⟩ := Stmt.moved_all hbody
  exact ⟨by simp only [Stmt.unplaced, htest.unplaced, hunplaced],
    .cons hloc (List.rel_append htest.locations hlocations)⟩

theorem doStatement (jumps : Jumps)
    : w.Mirrors w.width k (doStatement (ofLevels n) jumps loc) (doStatement (ofLevels n') jumps loc')
        w.MovesStmt := by
  unfold Grammar.doStatement
  refine .bind 1 0 (h.body _) fun body body' i hbody _ hi => .expectKeyword hi ?_
  refine .bind 1 0 h.condition fun test test' j htest _ hj => ?_
  obtain ⟨hunplaced, hlocations⟩ := Stmt.moved_all hbody
  have hst : w.MovesStmt (.doWhile body test loc) (.doWhile body' test' loc') :=
    ⟨by simp only [Stmt.unplaced, htest.unplaced, hunplaced],
      .cons hloc (List.rel_append hlocations htest.locations)⟩
  have hdiscard : discard (Parser.acceptSymbol .semicolon) =
      (Parser.acceptSymbol .semicolon >>= fun _ => pure PUnit.unit) := rfl
  rw [hdiscard, bind_assoc, bind_assoc]
  exact .acceptSymbol hj (.pure hst) (.pure hst)

end

theorem optionalExpression (close : Symbol) : w.Mirrors w.width k (optionalExpression (ofLevels n) close)
        (optionalExpression (ofLevels n') close) (Option.Rel w.MovesExpr) := by
  refine .of_lt 0 fun hk => .checkSymbol hk fun found => .ite Iff.rfl (fun _ => .pure .none) fun _ => ?_
  exact .bind 1 0 (h.innerExpression (by omega)) fun e e' i he _ _ => .pure (.some he)

theorem forInit : w.Mirrors w.width k (forInit (ofLevels n)) (forInit (ofLevels n')) (Option.Rel w.MovesStmt) := by
  refine .of_lt 0 fun hk => .peek hk fun kind loc loc' hkind hloc => .ite Iff.rfl (fun _ => .pure .none) fun _ => ?_
  dsimp only
  split
  . next found hfound =>
    refine .bind 1 0 (h.declaration _ ?_) fun st st' i hst _ _ => .pure (.some hst)
    intro hend
    rw [← hkind, hend] at hfound
    cases hfound
  . refine .bind 1 0 (h.innerExpression (by omega)) fun e e' i he _ _ => .pure (.some ?_)
    exact ⟨by simp only [Stmt.unplaced, he.unplaced], .cons hloc he.locations⟩

theorem forStatement (jumps : Jumps) {loc loc' : Location} (hloc : w.Moves loc loc')
    : w.Mirrors w.width k (forStatement (ofLevels n) jumps loc) (forStatement (ofLevels n') jumps loc')
        w.MovesStmt := by
  refine .of_lt 1 fun hk => ?_
  unfold Grammar.forStatement
  refine .expectSymbol (by omega) (.bind 0 0 h.forInit fun init init' i hinit _ hi => .expectSymbol hi ?_)
  refine .bind 0 0 (h.optionalExpression _) fun test test' j htest _ hj => .expectSymbol hj ?_
  refine .bind 0 0 (h.optionalExpression _) fun update update' l hupdate _ hl => .expectSymbol hl ?_
  refine .bind 1 0 (h.body _) fun body body' _ hbody _ _ => .pure ?_
  obtain ⟨hinit, hinit'⟩ := Stmt.moved? hinit
  obtain ⟨htest, htest'⟩ := Expr.moved? htest
  obtain ⟨hupdate, hupdate'⟩ := Expr.moved? hupdate
  obtain ⟨hbody, hbody'⟩ := Stmt.moved_all hbody
  exact ⟨by simp only [Stmt.unplaced, hinit, htest, hupdate, hbody],
    .cons hloc (List.rel_append (List.rel_append (List.rel_append hinit' htest') hupdate') hbody')⟩

omit h in
theorem handlerParam : w.Mirrors w.width k handlerParam handlerParam Eq := by
  refine .of_lt 0 fun hk => .ifSymbol hk (.of_lt 1 fun hk' => ?_) (.pure rfl)
  exact .name (by omega) fun name => .of_lt 1 fun hk'' => .expectSymbol (by omega) (.pure rfl)

theorem tryStatement (jumps : Jumps) {loc loc' : Location} (hloc : w.Moves loc loc')
    : w.Mirrors w.width k (tryStatement (ofLevels n) jumps loc) (tryStatement (ofLevels n') jumps loc')
        w.MovesStmt := by
  have hbraced : ∀ k, w.Mirrors w.width k (Grammar.braced (ofLevels n) jumps) (Grammar.braced (ofLevels n') jumps)
      (List.Forall₂ w.MovesStmt) :=
    fun k => (h.braced jumps).mono (Nat.le_succ _) fun _ _ => id
  have hrest : ∀ {block block' : List Stmt} {handler handler' : Option Handler} {i : Nat},
      List.Forall₂ w.MovesStmt block block' →
      Option.Rel (Handler.Moved w.origin.offset w.goal.offset) handler handler' → i < w.width →
      w.Mirrors w.width i
        (do
          let finalizer ← if ← Parser.acceptKeyword .finally then some <$> Grammar.braced (ofLevels n) jumps
            else pure none
          if handler.isNone && finalizer.isNone then
            Parser.fail .missingHandler (← Parser.location)
          return .try block handler finalizer loc)
        (do
          let finalizer ← if ← Parser.acceptKeyword .finally then some <$> Grammar.braced (ofLevels n') jumps
            else pure none
          if handler'.isNone && finalizer.isNone then
            Parser.fail .missingHandler (← Parser.location)
          return .try block' handler' finalizer loc') w.MovesStmt := by
    intro block block' handler handler' i hblock hhandler hi
    have hsome : handler'.isNone = handler.isNone := by cases hhandler <;> rfl
    obtain ⟨hblock, hblock'⟩ := Stmt.moved_all hblock
    obtain ⟨hhandler, hhandler'⟩ := Handler.moved? hhandler
    have hend : ∀ {finalizer finalizer' : Option (List Stmt)},
        Option.Rel (List.Forall₂ w.MovesStmt) finalizer finalizer' →
        w.MovesStmt (.try block handler finalizer loc) (.try block' handler' finalizer' loc') := by
      intro finalizer finalizer' hfinalizer
      obtain ⟨hunplaced, hlocations⟩ := Stmt.moved_all? hfinalizer
      exact ⟨by simp only [Stmt.unplaced, hblock, hhandler, hunplaced],
        .cons hloc (List.rel_append (List.rel_append hblock' hhandler') hlocations)⟩
    rw [hsome]
    refine .ifKeyword hi ?_ ?_
    . rw [bind_map_left, bind_map_left]
      refine .bind 1 0 (hbraced _) fun finalizer finalizer' j hfinalizer _ _ => ?_
      exact .ite Iff.rfl (fun _ => nofun) fun _ => .pure (hend (.some hfinalizer))
    . rw [pure_bind, pure_bind]
      exact .ite Iff.rfl (fun _ => nofun) fun _ => .pure (hend .none)
  unfold Grammar.tryStatement
  dsimp only
  refine .bind_of 1 0 (fun block => .after fun found => .ite (.after fun param => .after fun body => ?_) ?_) (hbraced k)
    fun block block' i hblock hi hlt => .ifKeyword hlt ?_ ?_
  . infer_instance
  . infer_instance
  . refine .bind_of 0 1 (fun param => .first fun body => ?_) (handlerParam.mono (Nat.sub_le _ _) fun _ _ => id) fun param param' j heq hj _ => ?_
    . infer_instance
    . subst heq
      refine .bind_of 1 0 (fun body => ?_) (hbraced j) fun body body' l hbody _ hl => ?_
      . infer_instance
      . rw [pure_bind, pure_bind]
        exact hrest hblock (.some ⟨rfl, hbody⟩) hl
  . rw [pure_bind, pure_bind]
    exact hrest hblock .none hlt

theorem throwStatement {loc loc' : Location} (hloc : w.Moves loc loc') (hpos : 0 < k)
    : w.Mirrors w.width k (throwStatement (ofLevels n) loc) (throwStatement (ofLevels n') loc') w.MovesStmt := by
  refine .of_lt 1 fun hk => .lineBreakBefore (by omega) hpos fun newline => .ite Iff.rfl (fun _ => .fail_bind) fun _ => ?_
  refine .bind 1 0 (h.innerExpression (by omega)) fun e e' i he hi hlt => ?_
  have hst : w.MovesStmt (.throw e loc) (.throw e' loc') :=
    ⟨by simp only [Stmt.unplaced, he.unplaced], .cons hloc he.locations⟩
  exact .semicolon hlt (by omega) (.pure hst) (.pure hst)

theorem statementRule (jumps : Jumps) : w.Mirrors w.width k (statementRule (ofLevels n) jumps) (statementRule (ofLevels n') jumps)
        w.MovesStmt := by
  refine .of_lt 1 fun hk => ?_
  have hdeclaration : ∀ kind, (w.source.get (w.start + k)).kind ≠ .endOfInput →
      w.Mirrors w.width k
        (do
          let declared ← Grammar.declaration (ofLevels n) kind
          Parser.semicolon
          return declared)
        (do
          let declared ← Grammar.declaration (ofLevels n') kind
          Parser.semicolon
          return declared) w.MovesStmt :=
    fun kind hkind => .bind 1 0 (h.declaration kind hkind) fun st st' i hst hi hlt =>
      .semicolon hlt (by omega) (.pure hst) (.pure hst)
  have hjump : ∀ {st st' : Stmt}, w.MovesStmt st st' → w.Mirrors w.width (k + 1)
      (do
        Parser.semicolon
        return st)
      (do
        Parser.semicolon
        return st') w.MovesStmt :=
    fun hst => .of_lt 0 fun hk' => .semicolon hk' (by omega) (.pure hst) (.pure hst)
  unfold Grammar.statementRule
  refine .peek (by omega) fun kind loc loc' hkind hloc => ?_
  dsimp only
  have hend : kind ≠ .endOfInput → (w.source.get (w.start + k)).kind ≠ .endOfInput := fun hne => by rwa [hkind]
  have hkeyword : ∀ word, TokenKind.keyword word ≠ .endOfInput := by rintro _ ⟨⟩
  have hsymbol : ∀ symbol, TokenKind.symbol symbol ≠ .endOfInput := by rintro _ ⟨⟩
  split
  . exact hdeclaration _ (hend (hkeyword _))
  . exact hdeclaration _ (hend (hkeyword _))
  . exact hdeclaration _ (hend (hkeyword _))
  . refine .bind 1 0 ((h.functionLiteral (.inl rfl)).mono (Nat.le_succ _) fun _ _ => id) fun f f' i hf _ _ => .pure ?_
    exact ⟨congrArg Stmt.function hf.unplaced, hf.locations⟩
  . exact .ite Iff.rfl (fun _ => .advance (by omega) (hend (hkeyword _)) (h.returnStatement hloc (by omega))) fun _ => .fail_bind
  . exact .advance (by omega) (hend (hkeyword _)) (h.ifStatement hloc jumps)
  . exact .advance (by omega) (hend (hkeyword _)) (h.whileStatement hloc jumps)
  . exact .advance (by omega) (hend (hkeyword _)) (h.doStatement hloc jumps)
  . exact .advance (by omega) (hend (hkeyword _)) (h.forStatement jumps hloc)
  . exact .ite Iff.rfl (fun _ => .advance (by omega) (hend (hkeyword _)) (hjump ⟨rfl, .cons hloc .nil⟩)) fun _ => .fail_bind
  . exact .ite Iff.rfl (fun _ => .advance (by omega) (hend (hkeyword _)) (hjump ⟨rfl, .cons hloc .nil⟩)) fun _ => .fail_bind
  . exact .advance (by omega) (hend (hkeyword _)) (h.throwStatement hloc (by omega))
  . exact .advance (by omega) (hend (hkeyword _)) (h.tryStatement jumps hloc)
  . refine .bind 1 0 ((h.braced jumps).mono (Nat.le_succ _) fun _ _ => id) fun stmts stmts' i hstmts _ _ => .pure ?_
    obtain ⟨hunplaced, hlocations⟩ := Stmt.moved_all hstmts
    exact ⟨by simp only [Stmt.unplaced, hunplaced], .cons hloc hlocations⟩
  . exact .advance (by omega) (hend (hsymbol _)) (.pure ⟨rfl, .cons hloc .nil⟩)
  . refine .bind 1 0 (h.innerExpression (by omega)) fun e e' i he hi hlt => ?_
    have hst : w.MovesStmt (.expr e loc) (.expr e' loc') :=
      ⟨by simp only [Stmt.unplaced, he.unplaced], .cons hloc he.locations⟩
    exact .semicolon hlt (by omega) (.pure hst) (.pure hst)

end MirrorsAt

section

variable {α β : Type} {stop : Nat} {rule : Grammar → Parser α} {rule' : Grammar → Parser β} {R : α → β → Prop}

theorem Mirrors.nested_zero : w.Mirrors stop k (nested (ofLevels 0) rule) (nested (ofLevels n') rule') R :=
  nofun

/-- Where the rule runs in the source, it runs in the target too, or there are no levels left there. -/
theorem Mirrors.nested_succ
    (h : ∀ m, w.Mirrors stop k (rule (above (ofLevels n))) (rule' (above (ofLevels m))) R)
    : w.Mirrors stop k (nested (ofLevels (n + 1)) rule) (nested (ofLevels n') rule') R := by
  cases n' with
  | zero => exact fun _ _ _ _ => .inr ⟨_, rfl⟩
  | succ m => exact h m

end

/-- All rules have the same results in the target, whatever number of levels of nesting is left there. -/
theorem mirrorsAt (w : Window) (n : Nat) : w.MirrorsAt n := by
  induction n with
  | zero => exact ⟨fun _ _ => .nested_zero, fun _ _ _ => .nested_zero, fun _ _ => .nested_zero,
      fun _ _ _ _ _ _ _ _ _ _ _ _ _ => .nested_zero, fun _ _ _ _ _ _ => .nested_zero⟩
  | succ n ih =>
    exact {
      expression := fun _ _ => .nested_succ fun _ => ih.assignmentRule
      nestedStatement := fun _ _ jumps => .nested_succ fun _ => ih.statementRule jumps
      unary := fun _ _ => .nested_succ fun _ => ih.unaryRule
      operand := fun _ _ _ _ _ _ _ _ _ hlevel htighter hloc hleft =>
        .nested_succ fun _ => ih.operandRule hlevel htighter hloc hleft
      access := fun _ _ _ _ hobject hkind => .nested_succ fun _ => ih.accessRule hobject hkind }

end Window
end ScriptHost
