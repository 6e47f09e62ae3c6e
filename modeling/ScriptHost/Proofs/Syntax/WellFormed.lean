import ScriptHost.Proofs.Syntax.Height
import ScriptHost.Proofs.Syntax.Tree

/-!
This module contains the proof that only well-formed trees are read. The jumps that a statement may contain
are those of the rule that reads it, so what a rule gives is stated for the jumps that are handed to it.
-/

namespace ScriptHost

/-! Lists are well-formed if their items are. -/

theorem Expr.wellFormedAll_of_forall {es : List Expr} (h : ∀ e ∈ es, e.WellFormed)
    : Expr.WellFormedAll es := by
  induction es with
  | nil => trivial
  | cons e es ih =>
    obtain ⟨he, hes⟩ := List.forall_mem_cons.1 h
    exact ⟨he, ih hes⟩

theorem Property.wellFormedAll_of_forall {ps : List Property} (h : ∀ q ∈ ps, q.value.WellFormed)
    : Property.WellFormedAll ps := by
  induction ps with
  | nil => trivial
  | cons q ps ih =>
    obtain ⟨hq, hps⟩ := List.forall_mem_cons.1 h
    cases q
    exact ⟨hq, ih hps⟩

theorem Stmt.wellFormedAll_of_forall {jumps : Jumps} {stmts : List Stmt}
    (h : ∀ st ∈ stmts, st.WellFormed jumps)
    : Stmt.WellFormedAll jumps stmts := by
  induction stmts with
  | nil => trivial
  | cons st stmts ih =>
    obtain ⟨hst, hstmts⟩ := List.forall_mem_cons.1 h
    exact ⟨hst, ih hstmts⟩

theorem Declarator.wellFormedAll_of_forall {ds : List Declarator}
    (h : ∀ d ∈ ds, Expr.WellFormed? d.init)
    : Declarator.WellFormedAll ds := by
  induction ds with
  | nil => trivial
  | cons d ds ih =>
    obtain ⟨hd, hds⟩ := List.forall_mem_cons.1 h
    cases d
    exact ⟨hd, ih hds⟩

namespace Grammar

theorem literal?_wellFormed {token : Token} {e : Expr} (he : literal? token = some e)
    : e.WellFormed := by
  unfold literal? at he
  split at he <;> cases he <;> trivial

theorem assignOp?_isArithmetic {kind : TokenKind} {op : BinaryOp} (hop : assignOp? kind = some (some op))
    : op.isArithmetic := by
  unfold assignOp? at hop
  split at hop <;> cases hop <;> rfl

theorem parameters_go_nodup (fuel : Nat) {params : List String} (hparams : params.Nodup)
    : Gives (parameters.go fuel params) List.Nodup := by
  induction fuel generalizing params with
  | zero => exact .pure hparams
  | succ fuel ih =>
    unfold parameters.go
    refine .after fun loc => .after fun param => .branch (fun _ => .fail_bind) fun hnew => ?_
    have hmem : param ∉ params := fun hmem => hnew (List.contains_iff_mem.2 hmem)
    have hmore : (params ++ [param]).Nodup := by
      refine List.nodup_append.2 ⟨hparams, List.nodup_cons.2 ⟨List.not_mem_nil, List.nodup_nil⟩, ?_⟩
      rintro old hold _ hparam rfl
      exact hmem (List.mem_singleton.1 hparam ▸ hold)
    exact .after fun comma => .ite (ih hmore) (.pure hmore)

theorem parameters_nodup : Gives parameters List.Nodup := by
  unfold parameters
  refine .after fun paren => .ite (.pure List.nodup_nil) (.after fun _ => ?_)
  exact parameters_go_nodup _ List.nodup_nil

/-- What is nested with at most `n` levels is well-formed. -/
structure Sound (n : Nat) : Prop where
  expression : ∀ m ≤ n, Gives (expression (ofLevels m)) Expr.WellFormed
  nestedStatement : ∀ m ≤ n, ∀ jumps, Gives (nestedStatement (ofLevels m) jumps) (Stmt.WellFormed jumps)

namespace Sound

variable {n m : Nat} (h : Sound n) (hm : m ≤ n)
include h hm

theorem braced (jumps : Jumps) : Gives (braced (ofLevels m) jumps) (Stmt.WellFormedAll jumps) := by
  refine .after fun _ => (Gives.many (h.nestedStatement m hm jumps)).bind fun stmts hstmts => ?_
  exact .after fun _ => .pure (Stmt.wellFormedAll_of_forall hstmts)

/-- A function in braces; its name is there if it has to be. -/
theorem functionLiteral (named : Bool)
    : Gives (functionLiteral (ofLevels m) named) fun f =>
        (named → f.name.isSome) ∧ f.body.isBlock ∧ f.WellFormed := by
  unfold Grammar.functionLiteral
  refine .after fun start => .after fun _ => .after fun t => ?_
  have hrest : ∀ name : Option String, (named → name.isSome) → Gives (do
      Parser.expectSymbol .leftParen
      let params ← parameters
      Parser.expectSymbol .rightParen
      let body ← Grammar.braced (ofLevels m) { inFunction := true }
      return ⟨name, params, .block body, start.through (← Parser.previous).loc⟩ : Parser Function)
      fun f => (named → f.name.isSome) ∧ f.body.isBlock ∧ f.WellFormed := by
    intro name hname
    refine .after fun _ => parameters_nodup.bind fun params hparams => .after fun _ => ?_
    refine (h.braced hm _).bind fun stmts hstmts => .after fun _ => .pure ?_
    exact ⟨hname, rfl, hparams, .inl rfl, hstmts⟩
  have hsome : ∀ name, Gives (some <$> name : Parser (Option String)) fun name => named → name.isSome :=
    fun _ => .map fun _ _ _ _ _ _ => rfl
  split
  . exact (hsome _).bind hrest
  . exact (hsome _).bind hrest
  . exact .pure_bind (hrest none fun h => absurd h Bool.false_ne_true)

theorem property : Gives (property (ofLevels m)) (·.value.WellFormed) := by
  unfold Grammar.property
  refine .after fun loc => .after fun key => .after fun colon => .ite ?_ ?_
  . exact (h.expression m hm).bind fun e he => .pure he
  . refine .after fun comma => .after fun brace => .ite ?_ .unexpected
    exact .pure trivial

theorem primary : Gives (primary (ofLevels m)) Expr.WellFormed := by
  unfold Grammar.primary
  refine .after fun t => ?_
  split
  . next e he => exact .after fun _ => .pure (literal?_wellFormed he)
  . split
    . exact (h.functionLiteral hm _).bind fun f hf => .pure hf.2.2
    . refine .after fun start => .after fun _ => (Gives.listUntil (h.expression m hm)).bind fun es hes => ?_
      exact .after fun _ => .after fun _ => .pure (Expr.wellFormedAll_of_forall hes)
    . refine .after fun start => .after fun _ => (Gives.listUntil (h.property hm)).bind fun ps hps => ?_
      exact .after fun _ => .after fun _ => .pure (Property.wellFormedAll_of_forall hps)
    . refine .after fun _ => (h.expression m hm).bind fun e he => ?_
      exact .after fun _ => .pure he
    . exact .unexpected

theorem accesses {e : Expr} (he : e.WellFormed)
    : Gives (accesses (ofLevels m) e) Expr.WellFormed := by
  induction m generalizing e with
  | zero =>
    unfold Grammar.accesses
    refine .after fun t => ?_
    split
    . exact .nested (by rintro _ ⟨⟩)
    . exact .nested (by rintro _ ⟨⟩)
    . exact .nested (by rintro _ ⟨⟩)
    . exact .pure he
  | succ m ih =>
    have hm' : m ≤ n := Nat.le_of_succ_le hm
    have haccess : Gives (accessRule (ofLevels m) e) Expr.WellFormed := by
      unfold accessRule
      refine .after fun t => .after fun _ => ?_
      split
      . refine (Gives.listUntil (h.expression m hm')).bind fun args hargs => .after fun _ => ?_
        exact ih hm' ⟨he, Expr.wellFormedAll_of_forall hargs⟩
      . exact .after fun loc => .after fun property => ih hm' he
      . refine (h.expression m hm').bind fun key hkey => .after fun _ => .after fun last => ?_
        exact ih hm' ⟨he, hkey⟩
    have hnested : Gives (nested (ofLevels (m + 1)) fun g => g.access e) Expr.WellFormed := by
      apply Gives.nested
      rintro _ ⟨⟩
      exact haccess
    unfold Grammar.accesses
    refine .after fun t => ?_
    split
    . exact hnested
    . exact hnested
    . exact hnested
    . exact .pure he

theorem updated : Gives (updated (ofLevels m)) Expr.WellFormed := by
  unfold Grammar.updated
  refine (h.primary hm).bind fun e he => (h.accesses hm he).bind fun operand hoperand => ?_
  refine .after fun newline => .ite (.pure hoperand) (.after fun t => ?_)
  dsimp only
  split
  . exact .pure hoperand
  . refine .branch (fun hplace => ?_) fun _ => .fail_bind
    exact .after fun _ => .pure ⟨fun _ => hplace, hoperand⟩

theorem unaryRule : Gives (unaryRule (ofLevels m)) Expr.WellFormed := by
  induction m with
  | zero =>
    unfold Grammar.unaryRule
    refine .after fun t => ?_
    split
    . exact h.updated hm
    . exact .after fun _ => Gives.bind (Q := fun _ => False) (.nested (by rintro _ ⟨⟩)) fun _ hfalse => hfalse.elim
  | succ m ih =>
    have hoperand : Gives (nested (ofLevels (m + 1)) fun g => g.unary) Expr.WellFormed := by
      apply Gives.nested
      rintro _ ⟨⟩
      exact ih (Nat.le_of_succ_le hm)
    unfold Grammar.unaryRule
    refine .after fun t => ?_
    split
    . exact h.updated hm
    . refine .after fun _ => hoperand.bind fun operand hoperand => ?_
      exact .branch (fun _ => .fail_bind) fun hplace => .pure ⟨by simpa using hplace, hoperand⟩

omit h in
theorem operators {level : Precedence} {tighter : List Precedence}
    (hright : ∀ m ≤ n, Gives (binary (ofLevels m) tighter) Expr.WellFormed) {e : Expr} (he : e.WellFormed)
    : Gives (operators (ofLevels m) level tighter e) Expr.WellFormed := by
  induction m generalizing e with
  | zero =>
    unfold Grammar.operators
    refine .after fun t => ?_
    split
    . exact .pure he
    . exact .after fun _ => .nested (by rintro _ ⟨⟩)
  | succ m ih =>
    have hm' : m ≤ n := Nat.le_of_succ_le hm
    unfold Grammar.operators
    refine .after fun t => ?_
    split
    . exact .pure he
    . next op _ =>
      refine .after fun _ => .nested ?_
      rintro _ ⟨⟩
      change Gives (operandRule (ofLevels m) level tighter op t.loc e) _
      exact (hright m hm').bind fun right hright => ih hm' ⟨he, hright⟩

theorem binary (levels : List Precedence) : Gives (binary (ofLevels m) levels) Expr.WellFormed := by
  induction levels generalizing m with
  | nil => exact h.unaryRule hm
  | cons level tighter ih => exact (ih hm).bind fun e he => operators hm (fun m hm => ih hm) he

theorem conditional : Gives (conditional (ofLevels m)) Expr.WellFormed := by
  unfold Grammar.conditional
  refine (h.binary hm precedences).bind fun condition hcondition => ?_
  refine .after fun loc => .after fun question => .ite ?_ (.pure hcondition)
  refine (h.expression m hm).bind fun whenTrue htrue => .after fun _ => ?_
  exact (h.expression m hm).bind fun whenFalse hfalse => .pure ⟨hcondition, htrue, hfalse⟩

/-- A body without braces holds no statements, and its function has no name. -/
theorem arrowFunction : Gives (arrowFunction (ofLevels m)) Expr.WellFormed := by
  have hblock : Gives (FunctionBody.block <$> Grammar.braced (ofLevels m) { inFunction := true })
      FunctionBody.WellFormed := .map (h.braced hm _)
  have hvalue : Gives (FunctionBody.expr <$> Grammar.expression (ofLevels m)) FunctionBody.WellFormed :=
    .map (h.expression m hm)
  have hbody : ∀ (start : Location) (params : List String), params.Nodup → Gives (do
      Parser.expectSymbol .arrow
      let body ← if ← Parser.checkSymbol .leftBrace then
          FunctionBody.block <$> Grammar.braced (ofLevels m) { inFunction := true }
        else
          FunctionBody.expr <$> Grammar.expression (ofLevels m)
      return .function ⟨none, params, body, start.through (← Parser.previous).loc⟩ : Parser Expr)
      Expr.WellFormed := by
    intro start params hparams
    refine .after fun _ => .after fun brace => .ite ?_ ?_
    . exact hblock.bind fun body hbody => .after fun last => .pure ⟨hparams, .inr rfl, hbody⟩
    . exact hvalue.bind fun body hbody => .after fun last => .pure ⟨hparams, .inr rfl, hbody⟩
  unfold Grammar.arrowFunction
  refine .after fun start => .after fun paren => .ite ?_ ?_
  . exact parameters_nodup.bind fun params hparams => .after fun _ => hbody start params hparams
  . exact .after fun name => hbody start [name]
      (List.nodup_cons.2 ⟨List.not_mem_nil, List.nodup_nil⟩)

theorem assignmentRule : Gives (assignmentRule (ofLevels m)) Expr.WellFormed := by
  unfold Grammar.assignmentRule
  refine .after fun arrow => .ite (h.arrowFunction hm) ?_
  refine (h.conditional hm).bind fun target htarget => .after fun t => ?_
  split
  . exact .pure htarget
  . next op? hop =>
    refine .branch (fun hplace => ?_) fun _ => .fail_bind
    refine .after fun _ => (h.expression m hm).bind fun value hvalue => ?_
    cases op? with
    | none => exact .pure ⟨hplace, htarget, hvalue⟩
    | some op => exact .pure ⟨assignOp?_isArithmetic hop, hplace, htarget, hvalue⟩

/-! Statements. -/

theorem body (jumps : Jumps) : Gives (body (ofLevels m) jumps) (Stmt.WellFormedAll jumps) := by
  unfold Grammar.body
  refine .after fun brace => .ite (h.braced hm jumps) ?_
  exact (h.nestedStatement m hm jumps).bind fun st hst => .pure ⟨hst, trivial⟩

theorem condition : Gives (condition (ofLevels m)) Expr.WellFormed :=
  .after fun _ => (h.expression m hm).bind fun _ he => .after fun _ => .pure he

theorem declarator (kind : DeclareKind)
    : Gives (declarator (ofLevels m) kind) fun d =>
        (kind = .const → d.init.isSome) ∧ Expr.WellFormed? d.init := by
  have hinit : Gives (some <$> Grammar.expression (ofLevels m)) fun init =>
      init.isSome ∧ Expr.WellFormed? init :=
    .map ((h.expression m hm).mono fun _ he => ⟨rfl, he⟩)
  unfold Grammar.declarator
  refine .after fun loc => .after fun name => .after fun assign => .ite ?_ (.pure_bind ?_)
  . refine hinit.bind fun init hinit => .ite .fail_bind (.pure ?_)
    exact ⟨fun _ => hinit.1, hinit.2⟩
  . refine .branch (fun _ => .fail_bind) fun hkind => .pure ⟨fun hconst => ?_, trivial⟩
    exact absurd (Bool.and_eq_true_iff.2 ⟨decide_eq_true hconst, rfl⟩) hkind

theorem declaration (kind : DeclareKind) (jumps : Jumps)
    : Gives (declaration (ofLevels m) kind) fun st => st.isInit ∧ st.WellFormed jumps := by
  have hall : Gives (Parser.commaSeparated (Grammar.declarator (ofLevels m) kind)) fun ds =>
      ds ≠ [] ∧ ∀ d ∈ ds, (kind = .const → d.init.isSome) ∧ Expr.WellFormed? d.init := by
    refine (h.declarator hm kind).bind fun d hd => (Gives.many (h.declarator hm kind)).bind fun ds hds => ?_
    exact .pure ⟨List.cons_ne_nil d ds, List.forall_mem_cons.2 ⟨hd, hds⟩⟩
  refine .after fun loc => .after fun _ => hall.bind fun ds ⟨hne, hds⟩ => .pure ⟨rfl, hne, ?_, ?_⟩
  . exact fun hconst d hmem => (hds d hmem).1 hconst
  . exact Declarator.wellFormedAll_of_forall fun d hmem => (hds d hmem).2

theorem returnStatement {jumps : Jumps} (hjumps : jumps.inFunction) (loc : Location)
    : Gives (returnStatement (ofLevels m) loc) (Stmt.WellFormed jumps) := by
  have hvalue : Gives (some <$> Grammar.expression (ofLevels m)) Expr.WellFormed? :=
    .map (h.expression m hm)
  unfold Grammar.returnStatement
  refine .after fun semicolon => .after fun brace => .after fun atEnd => .after fun newline => .ite ?_ ?_
  . exact .pure_bind (.after fun _ => .pure ⟨hjumps, trivial⟩)
  . exact hvalue.bind fun value hvalue => .after fun _ => .pure ⟨hjumps, hvalue⟩

theorem ifStatement (jumps : Jumps) (loc : Location)
    : Gives (ifStatement (ofLevels m) jumps loc) (Stmt.WellFormed jumps) := by
  have helse : Gives (some <$> Grammar.body (ofLevels m) jumps) (Stmt.WellFormedAll? jumps) :=
    .map (h.body hm jumps)
  unfold Grammar.ifStatement
  refine (h.condition hm).bind fun test htest => (h.body hm jumps).bind fun thenBranch hthen => ?_
  refine .after fun found => .ite ?_ (.pure_bind (.pure ⟨htest, hthen, trivial⟩))
  exact helse.bind fun elseBranch helse => .pure ⟨htest, hthen, helse⟩

theorem whileStatement (jumps : Jumps) (loc : Location)
    : Gives (whileStatement (ofLevels m) jumps loc) (Stmt.WellFormed jumps) :=
  (h.condition hm).bind fun _ htest => (h.body hm _).bind fun _ hbody => .pure ⟨htest, hbody⟩

theorem doStatement (jumps : Jumps) (loc : Location)
    : Gives (doStatement (ofLevels m) jumps loc) (Stmt.WellFormed jumps) := by
  refine (h.body hm _).bind fun body hbody => .after fun _ => (h.condition hm).bind fun test htest => ?_
  exact .after fun _ => .pure ⟨hbody, htest⟩

theorem optionalExpression (close : Symbol)
    : Gives (optionalExpression (ofLevels m) close) Expr.WellFormed? := by
  refine .after fun found => .ite (.pure trivial) ?_
  exact (h.expression m hm).bind fun e he => .pure he

theorem forInit (jumps : Jumps)
    : Gives (forInit (ofLevels m)) fun init => (∀ st ∈ init, st.isInit) ∧ Stmt.WellFormed? jumps init := by
  have hsome : ∀ st : Stmt, st.isInit ∧ st.WellFormed jumps →
      (∀ st' ∈ some st, st'.isInit) ∧ Stmt.WellFormed? jumps (some st) := by
    rintro st ⟨hinit, hst⟩
    exact ⟨fun _ hmem => Option.some.inj hmem ▸ hinit, hst⟩
  unfold Grammar.forInit
  refine .after fun t => .ite (.pure ⟨nofun, trivial⟩) ?_
  split
  . exact (h.declaration hm _ jumps).bind fun st hst => .pure (hsome st hst)
  . exact (h.expression m hm).bind fun e he => .pure (hsome _ ⟨rfl, he⟩)

theorem forStatement (jumps : Jumps) (loc : Location)
    : Gives (forStatement (ofLevels m) jumps loc) (Stmt.WellFormed jumps) := by
  refine .after fun _ => (h.forInit hm jumps).bind fun init hinit => .after fun _ => ?_
  refine (h.optionalExpression hm _).bind fun test htest => .after fun _ => ?_
  refine (h.optionalExpression hm _).bind fun update hupdate => .after fun _ => ?_
  exact (h.body hm _).bind fun body hbody => .pure ⟨hinit.1, hinit.2, htest, hupdate, hbody⟩

theorem tryStatement (jumps : Jumps) (loc : Location)
    : Gives (tryStatement (ofLevels m) jumps loc) (Stmt.WellFormed jumps) := by
  have hfinally : Gives (some <$> Grammar.braced (ofLevels m) jumps) (Stmt.WellFormedAll? jumps) :=
    .map (h.braced hm jumps)
  unfold Grammar.tryStatement
  refine (h.braced hm jumps).bind fun block hblock => .after fun found => ?_
  have hrest : ∀ handler, Handler.WellFormed? jumps handler → Gives (do
      let finalizer ← if ← Parser.acceptKeyword .finally then
          some <$> Grammar.braced (ofLevels m) jumps
        else pure none
      if handler.isNone && finalizer.isNone then
        Parser.fail .missingHandler (← Parser.location)
      return .try block handler finalizer loc : Parser Stmt) (Stmt.WellFormed jumps) := by
    intro handler hhandler
    have hdone : ∀ finalizer, Stmt.WellFormedAll? jumps finalizer → Gives (do
        if handler.isNone && finalizer.isNone then
          Parser.fail .missingHandler (← Parser.location)
        return .try block handler finalizer loc : Parser Stmt) (Stmt.WellFormed jumps) := by
      intro finalizer hfinalizer
      refine .branch (fun _ => .after fun loc => .fail_bind) fun hnone => ?_
      have hsome : handler.isSome ∨ finalizer.isSome := by
        cases handler <;> cases finalizer <;> simp at hnone ⊢
      exact .pure ⟨hsome, hblock, hhandler, hfinalizer⟩
    refine .after fun found => .ite (hfinally.bind hdone) ?_
    exact .pure_bind (hdone none trivial)
  refine .ite ?_ (.pure_bind (hrest none trivial))
  refine .after fun param => (h.braced hm jumps).bind fun body hbody => ?_
  exact .pure_bind (hrest (some ⟨param, body⟩) hbody)

theorem throwStatement (jumps : Jumps) (loc : Location)
    : Gives (throwStatement (ofLevels m) loc) (Stmt.WellFormed jumps) := by
  refine .after fun newline => .ite .fail_bind ?_
  exact (h.expression m hm).bind fun value hvalue => .after fun _ => .pure hvalue

theorem statementRule (jumps : Jumps)
    : Gives (statementRule (ofLevels m) jumps) (Stmt.WellFormed jumps) := by
  have hdeclare : ∀ kind, Gives (do
      let declared ← Grammar.declaration (ofLevels m) kind
      Parser.semicolon
      return declared) (Stmt.WellFormed jumps) :=
    fun kind => (h.declaration hm kind jumps).bind fun st hst => .after fun _ => .pure hst.2
  have hjump : ∀ {st : Stmt}, st.WellFormed jumps → Gives (do
      Parser.advance
      Parser.semicolon
      return st) (Stmt.WellFormed jumps) :=
    fun hst => .after fun _ => .after fun _ => .pure hst
  unfold Grammar.statementRule
  refine .after fun ⟨kind, loc⟩ => ?_
  dsimp only
  split
  . exact hdeclare _
  . exact hdeclare _
  . exact hdeclare _
  . exact (h.functionLiteral hm true).bind fun f hf => .pure ⟨hf.1 rfl, hf.2⟩
  . exact .branch (fun hfunction => .after fun _ => h.returnStatement hm hfunction loc) fun _ => .fail_bind
  . exact .after fun _ => h.ifStatement hm jumps loc
  . exact .after fun _ => h.whileStatement hm jumps loc
  . exact .after fun _ => h.doStatement hm jumps loc
  . exact .after fun _ => h.forStatement hm jumps loc
  . exact .branch (fun hloop => hjump hloop) fun _ => .fail_bind
  . exact .branch (fun hloop => hjump hloop) fun _ => .fail_bind
  . exact .after fun _ => h.throwStatement hm jumps loc
  . exact .after fun _ => h.tryStatement hm jumps loc
  . exact (h.braced hm jumps).bind fun stmts hstmts => .pure hstmts
  . exact .after fun _ => .pure trivial
  . exact (h.expression m hm).bind fun e he => .after fun _ => .pure he

end Sound

theorem sound (n : Nat) : Sound n := by
  induction n with
  | zero =>
    refine ⟨?_, ?_⟩
    . intro m hm
      cases Nat.le_zero.1 hm
      exact .nested (by rintro _ ⟨⟩)
    . intro m hm jumps
      cases Nat.le_zero.1 hm
      exact .nested (by rintro _ ⟨⟩)
  | succ n ih =>
    refine ⟨?_, ?_⟩
    . intro m hm
      apply Gives.nested
      rintro m rfl
      exact ih.assignmentRule (Nat.le_of_succ_le_succ hm)
    . intro m hm jumps
      apply Gives.nested
      rintro m rfl
      exact ih.statementRule (Nat.le_of_succ_le_succ hm) jumps

theorem script_sound : Gives script (Stmt.WellFormedAll {}) :=
  (Gives.many ((sound maxNesting).nestedStatement maxNesting (Nat.le_refl _) {})).mono fun _ hstmts =>
    Stmt.wellFormedAll_of_forall hstmts

end Grammar

/--
Only well-formed scripts are accepted. At the top level of a script no jump is allowed; a function allows its
own `return`, and the body of a loop the `break` and `continue` of that loop.
-/
theorem parse_wellFormed {source : String} {stmts : List Stmt} (hparse : parse source = .ok stmts)
    : Stmt.WellFormedAll {} stmts := by
  obtain ⟨tokens, i, -, hrun⟩ := parse_eq_ok_iff.1 hparse
  exact Grammar.script_sound _ _ _ _ hrun

/-- A function whose loop is left by a jump, by a `return` and by an exception that a handler catches. -/
def leavingSource : String :=
  "function f(a, b) { for (var i = 0; ; i++) { try { if (a) break; return i += b; } catch { continue; } } }"

theorem parse_wellFormed_leaving
    : ∃ stmts, parse leavingSource = .ok stmts ∧ Stmt.WellFormedAll {} stmts := by
  have hok : (parse leavingSource).toOption.isSome := by decide +kernel
  cases hparse : parse leavingSource with
  | error e =>
    rw [hparse] at hok
    cases hok
  | ok stmts => exact ⟨stmts, rfl, parse_wellFormed hparse⟩

end ScriptHost
