import ScriptHost.Proofs.Syntax.KeepsExpr

/-!
This module contains that the rules for statements, and so all rules of the grammar, keep their results in a copy
of the tokens with the missing semicolons inserted.
-/

namespace ScriptHost

open Grammar Known

namespace Grammar

/-- Whether a `return` has no value here. -/
def returnsBare (s : TokenStream) (i : Nat) : Bool :=
  (s.get i).kind = .symbol .semicolon || (s.get i).kind = .symbol .rightBrace || (s.get i).kind = .endOfInput ||
    (0 < i && (s.get (i - 1)).loc.line < (s.get i).loc.line)

theorem returnStatementWith_at (terminator : Parser Unit) (lower : Option Grammar) (loc : Location) {s : TokenStream}
    {i : Nat} {bare : Bool} (h : returnsBare s i = bare)
    : (returnStatementWith terminator lower loc).at s i =
      (if bare then (do
        terminator
        return .return none loc)
      else (do
        let value ← expression lower
        terminator
        return .return (some value) loc) : Parser Stmt).at s i := by
  subst h
  unfold returnStatementWith
  simp only [Parser.bind_at, Parser.checkSymbol, Parser.check_at, Parser.atEnd_at, Parser.lineBreakBefore_at,
    Except.bind]
  rw [pure_bind, bind_map_left]
  rfl

theorem returnsBare_of_get {s t : TokenStream} {k n : Nat} (htoken : t.get n = s.get k) (hbehind : behind s k t n)
    : returnsBare t n = returnsBare s k := by
  obtain ⟨hn, hk, hlast⟩ := hbehind
  unfold returnsBare
  rw [htoken, hlast, decide_eq_true hn, decide_eq_true hk]

end Grammar

namespace KeepsAt

variable {s : TokenStream} {k n : Nat} {P : Known} {c : Bool}

theorem handlerParam : Keeps s k P c fun _ => handlerParam := by
  refine (Keeps.acceptSymbol (.inr (by decide))).bind fun _ _ => .ite (fun _ => ?_) fun _ => .pure
  exact Keeps.name.bind fun _ _ => Keeps.expectSymbol.bind fun _ _ => .pure

variable (h : KeepsAt s n)
include h

theorem body (jumps : Jumps) : Keeps s k P false fun due => body (demanding due n) jumps := by
  refine .seen (.checkSymbol (.ite (fun _ => .of_closed (h.braced jumps)) fun _ => ?_))
  exact (h.nestedStatement _ _ jumps).bind fun _ _ => .pure

theorem condition : Keeps s k P true fun due => condition (demanding due n) :=
  Keeps.expectSymbol.bind fun _ _ => (h.expression _ _).bind fun _ _ => Keeps.expectSymbol.bind fun _ _ => .pure

theorem declarator (kind : DeclareKind) : Keeps s k P true fun due => declarator (demanding due n) kind := by
  refine .seen_taking (.location (Keeps.name.bind fun _ _ => ?_))
  refine (Keeps.acceptSymbol (.inr (by decide))).bind fun _ _ => .ite (fun _ => ?_) fun _ => ?_
  . exact (h.expression _ _).map.bind fun _ _ => .ite (fun _ => .fail_bind) fun _ => .pure
  . exact .pure_bind (.ite (fun _ => .fail_bind) fun _ => .pure)

theorem declaration (kind : DeclareKind) (hkind : (s.get k).kind ≠ .endOfInput)
    : Keeps s k P true fun due => declaration (demanding due n) kind := by
  refine .seen_taking (.location (.after_advance hkind ?_))
  exact (Keeps.commaSeparated fun _ _ => h.declarator kind).bind fun _ _ => .pure

theorem ifStatement (jumps : Jumps) (loc : Location)
    : Keeps s k P false fun due => ifStatement (demanding due n) jumps loc := by
  refine (Keeps.of_closed h.condition).bind fun _ _ => (h.body jumps).bind fun _ _ => ?_
  refine Keeps.acceptKeyword.bind fun _ _ => .ite (fun _ => ?_) fun _ => .pure_bind .pure
  exact (h.body jumps).map.bind fun _ _ => .pure

theorem whileStatement (jumps : Jumps) (loc : Location)
    : Keeps s k P false fun due => whileStatement (demanding due n) jumps loc :=
  (Keeps.of_closed h.condition).bind fun _ _ => (h.body _).bind fun _ _ => .pure

theorem doStatement (jumps : Jumps) (loc : Location)
    : Keeps s k P false fun due => doStatement (demanding due n) jumps loc := by
  refine (h.body _).bind fun _ _ => Keeps.expectKeyword.bind fun _ _ => ?_
  refine (Keeps.of_closed h.condition).bind fun _ _ => (Keeps.acceptSymbol (.inl rfl)).map.bind fun _ _ => .pure

theorem optionalExpression (close : Symbol)
    : Keeps s k P false fun due => optionalExpression (demanding due n) close :=
  .seen (.checkSymbol (.ite (fun _ => .pure) fun _ => .of_closed ((h.expression _ _).bind fun _ _ => .pure)))

theorem forInit : Keeps s k P false fun due => forInit (demanding due n) := by
  refine .seen (.peek (.ite (fun _ => .pure) fun _ => ?_))
  cases hdeclare : declareKind? (s.get k).kind with
  | some kind =>
    refine .of_closed ((h.declaration kind fun hend => ?_).bind fun _ _ => .pure)
    rw [hend] at hdeclare
    cases hdeclare
  | none => exact .of_closed ((h.expression _ _).bind fun _ _ => .pure)

theorem forStatement (jumps : Jumps) (loc : Location)
    : Keeps s k P false fun due => forStatement (demanding due n) jumps loc := by
  refine Keeps.expectSymbol.bind fun _ _ => h.forInit.bind fun _ _ => Keeps.expectSymbol.bind fun _ _ => ?_
  refine (h.optionalExpression _).bind fun _ _ => Keeps.expectSymbol.bind fun _ _ => ?_
  refine (h.optionalExpression _).bind fun _ _ => Keeps.expectSymbol.bind fun _ _ => ?_
  exact (h.body _).bind fun _ _ => .pure

theorem tryStatement (jumps : Jumps) (loc : Location)
    : Keeps s k P false fun due => tryStatement (demanding due n) jumps loc := by
  have hbraced : ∀ {k P}, Keeps s k P false fun due => Grammar.braced (demanding due n) jumps :=
    .of_closed (h.braced jumps)
  have hrest : ∀ (block : List Stmt) (handler : Option Handler) (k : Nat) (P : Known),
      Keeps s k P false fun due => (do
        let finalizer ← if ← Parser.acceptKeyword .finally then some <$> Grammar.braced (demanding due n) jumps
          else pure none
        if handler.isNone && finalizer.isNone then
          Parser.fail .missingHandler (← Parser.location)
        return .try block handler finalizer loc : Parser Stmt) := by
    intro block handler k P
    refine Keeps.acceptKeyword.bind fun _ _ => .ite (fun _ => ?_) fun _ => ?_
    . exact hbraced.map.bind fun _ _ => .ite (fun _ => .of_error nofun) fun _ => .pure
    . exact .pure_bind (.ite (fun _ => .of_error nofun) fun _ => .pure)
  refine hbraced.bind fun block _ => Keeps.acceptKeyword.bind fun _ _ => .ite (fun _ => ?_) fun _ => ?_
  . exact handlerParam.bind fun _ _ => hbraced.bind fun _ _ => .pure_bind (hrest _ _ _ _)
  . exact .pure_bind (hrest _ _ _ _)

theorem throwStatement [Saw s k P] (loc : Location)
    : Keeps s k P false fun due => throwStatementWith (Parser.demand due) (demanding due n) loc :=
  .seen (.lineBreakBefore (.ite (fun _ => .fail_bind) fun _ => (h.expression _ _).ended))

theorem returnStatement (hkind : (s.get k).kind ≠ .endOfInput) (loc : Location)
    : Keeps s k P false fun due => (do
        Parser.advance
        returnStatementWith (Parser.demand due) (demanding due n) loc : Parser Stmt) := by
  cases hbare : returnsBare s (k + 1) with
  | true =>
    refine (Keeps.advance hkind).ended_of (g := fun _ => .return none loc) (fun _ _ hok => ?_) ?_
    . rw [Keeps.advance_eq_ok hkind hok]
      exact Nat.lt_succ_self k
    . intro _ k' due t m hok hend hbehind
      rw [Keeps.advance_eq_ok hkind hok] at hend hbehind
      -- Where the semicolon is inserted, there is no value in the copy either.
      have hbare' : returnsBare t m = true := by
        rcases hend with htoken | ⟨-, hsemicolon⟩
        . rw [returnsBare_of_get htoken hbehind, hbare]
        . unfold returnsBare
          rw [hsemicolon]
          rfl
      exact returnStatementWith_at _ _ loc hbare'
  | false =>
    have hvalue := fun P => (h.expression (k + 1) P).ended (g := fun value => Stmt.return (some value) loc)
    refine .after_advance hkind (.seen ((hvalue _).congr (fun _ => returnStatementWith_at _ _ loc hbare) ?_))
    exact fun _ t m hP => returnStatementWith_at _ _ loc ((returnsBare_of_get hP.2 hP.1).trans hbare)

theorem statementRule (jumps : Jumps)
    : Keeps s k P false fun due => statementRuleWith (Parser.demand due) (demanding due n) jumps := by
  refine .seen (.peek ?_)
  generalize htoken : s.get k = token
  obtain ⟨kind, loc⟩ := token
  dsimp only
  have hexpression : Keeps s k (next s k P) false fun due => (do
      let value ← Grammar.expression (demanding due n)
      Parser.demand due
      return .expr value loc : Parser Stmt) :=
    (h.expression _ _).ended
  have hdeclaration : ∀ declared, (s.get k).kind ≠ .endOfInput → Keeps s k (next s k P) false fun due => (do
      let declared ← Grammar.declaration (demanding due n) declared
      Parser.demand due
      return declared : Parser Stmt) :=
    fun declared hkind => (h.declaration declared hkind).ended
  have hjump : ∀ st, (s.get k).kind ≠ .endOfInput → Keeps s k (next s k P) false fun due => (do
      Parser.advance
      Parser.demand due
      return st : Parser Stmt) := by
    intro st hkind
    refine (Keeps.advance hkind).ended_of (g := fun _ => st) (fun _ _ hok => ?_) fun _ _ _ _ _ _ _ _ => rfl
    rw [Keeps.advance_eq_ok hkind hok]
    exact Nat.lt_succ_self k
  cases kind with
  | keyword word =>
    have hkind : (s.get k).kind ≠ .endOfInput := by simp [htoken]
    cases word with
    | var => exact hdeclaration _ hkind
    | «let» => exact hdeclaration _ hkind
    | const => exact hdeclaration _ hkind
    | function => exact .of_closed ((h.functionLiteral true).bind fun _ _ => .pure)
    | «return» => exact .ite (fun _ => h.returnStatement hkind loc) fun _ => .fail_bind
    | «if» => exact .after_advance hkind (h.ifStatement jumps loc)
    | «while» => exact .after_advance hkind (h.whileStatement jumps loc)
    | «do» => exact .after_advance hkind (h.doStatement jumps loc)
    | «for» => exact .after_advance hkind (h.forStatement jumps loc)
    | «break» => exact .ite (fun _ => hjump _ hkind) fun _ => .fail_bind
    | «continue» => exact .ite (fun _ => hjump _ hkind) fun _ => .fail_bind
    | throw => exact .after_advance hkind (h.throwStatement loc)
    | «try» => exact .after_advance hkind (h.tryStatement jumps loc)
    | _ => exact hexpression
  | symbol symbol =>
    have hkind : (s.get k).kind ≠ .endOfInput := by simp [htoken]
    cases symbol with
    | leftBrace => exact .of_closed ((h.braced jumps).bind fun _ _ => .pure)
    | semicolon => exact .after_advance hkind .pure
    | _ => exact hexpression
  | _ => exact hexpression

end KeepsAt

/-- All rules keep their results, whatever number of levels of nesting is left. -/
theorem keepsAt (s : TokenStream) [s.KnowsArrows] (n : Nat) : KeepsAt s n := by
  induction n with
  | zero =>
    have hnone : ∀ {α : Type} {k P c} (rule : Grammar → Parser α),
        Keeps s k P c fun due => nested (demanding due 0) rule :=
      fun _ => .of_error nofun
    exact ⟨fun _ _ => hnone _, fun _ _ _ => hnone _, fun _ _ => hnone _, fun _ _ _ _ _ _ _ _ _ => hnone _,
      fun _ _ _ _ => hnone _⟩
  | succ n ih =>
    exact {
      expression := fun _ _ => ih.assignmentRule
      nestedStatement := fun _ _ jumps => ih.statementRule jumps
      unary := fun _ _ => ih.unaryRule
      operand := fun _ _ _ _ op loc left hlevel htighter => ih.operandRule hlevel htighter op loc left
      access := fun _ _ object hkind => ih.accessRule object hkind }

end ScriptHost
