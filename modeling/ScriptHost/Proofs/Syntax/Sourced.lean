import ScriptHost.Proofs.Syntax.Functions
import ScriptHost.Proofs.Syntax.Height
import ScriptHost.Proofs.Syntax.Yields
import ScriptHost.Proofs.Token.Tiling

/-!
This module contains where the parts of a tree come from: each location spans tokens of the script, and each
function is what a rule for functions reads from a token on.
-/

namespace ScriptHost

open Grammar (ofLevels)

/-- What a rule for functions reads from a token on. -/
inductive TokenStream.Reads (s : TokenStream) (f : Function) : Prop
  | literal {n i j : Nat} {named : Bool} (hi : i < s.tokens.size)
    (h : (Grammar.functionLiteral (ofLevels n) named).at s i = .ok (f, j))
  | arrow {n i j : Nat} (hi : i < s.tokens.size)
    (h : (Grammar.arrowFunction (ofLevels n)).at s i = .ok (.function f, j))

/-- The locations and the functions of a part of a tree come from the script. -/
structure Sourced (s : TokenStream) (ls : List Location) (fs : List Function) : Prop where
  spans : ∀ l ∈ ls, s.Spans l
  reads : ∀ f ∈ fs, s.Reads f

namespace Sourced

variable {s : TokenStream} {l : Location} {ls ls' : List Location} {f : Function} {fs fs' : List Function}

theorem nil : Sourced s [] [] :=
  ⟨nofun, nofun⟩

theorem append (h : Sourced s ls fs) (h' : Sourced s ls' fs') : Sourced s (ls ++ ls') (fs ++ fs') :=
  ⟨List.forall_mem_append.2 ⟨h.spans, h'.spans⟩, List.forall_mem_append.2 ⟨h.reads, h'.reads⟩⟩

theorem loc (hl : s.Spans l) (h : Sourced s ls fs) : Sourced s (l :: ls) fs :=
  ⟨List.forall_mem_cons.2 ⟨hl, h.spans⟩, h.reads⟩

theorem function (hf : s.Reads f) (h : Sourced s ls fs) : Sourced s ls (f :: fs) :=
  ⟨h.spans, List.forall_mem_cons.2 ⟨hf, h.reads⟩⟩

theorem mark (hl : s.Marks l) : Sourced s [l] [] :=
  loc hl.spans nil

end Sourced

variable {s : TokenStream}

def Expr.IsSourced (s : TokenStream) (e : Expr) : Prop :=
  Sourced s e.locations e.functions

def Function.IsSourced (s : TokenStream) (f : Function) : Prop :=
  Sourced s f.locations f.functions

def Stmt.IsSourced (s : TokenStream) (st : Stmt) : Prop :=
  Sourced s st.locations st.functions

theorem Expr.sourcedAll {es : List Expr} (h : ∀ e ∈ es, e.IsSourced s)
    : Sourced s (Expr.locationsAll es) (Expr.functionsAll es) := by
  induction es with
  | nil => exact .nil
  | cons e es ih =>
    obtain ⟨he, hes⟩ := List.forall_mem_cons.1 h
    exact .append he (ih hes)

theorem Property.sourcedAll {ps : List Property} (h : ∀ q ∈ ps, q.value.IsSourced s)
    : Sourced s (Property.locationsAll ps) (Property.functionsAll ps) := by
  induction ps with
  | nil => exact .nil
  | cons q ps ih =>
    obtain ⟨hq, hps⟩ := List.forall_mem_cons.1 h
    cases q
    exact .append hq (ih hps)

theorem Stmt.sourcedAll {stmts : List Stmt} (h : ∀ st ∈ stmts, st.IsSourced s)
    : Sourced s (Stmt.locationsAll stmts) (Stmt.functionsAll stmts) := by
  induction stmts with
  | nil => exact .nil
  | cons st stmts ih =>
    obtain ⟨hst, hstmts⟩ := List.forall_mem_cons.1 h
    exact .append hst (ih hstmts)

theorem Declarator.sourcedAll {ds : List Declarator}
    (h : ∀ d ∈ ds, Sourced s (d.loc :: Expr.locations? d.init) (Expr.functions? d.init))
    : Sourced s (Declarator.locationsAll ds) (Declarator.functionsAll ds) := by
  induction ds with
  | nil => exact .nil
  | cons d ds ih =>
    obtain ⟨hd, hds⟩ := List.forall_mem_cons.1 h
    cases d
    exact .append hd (ih hds)

namespace Grammar

/-- What the rules read that run with `n` levels of nesting left. -/
structure SourcedAt (s : TokenStream) (n : Nat) : Prop where
  expression : Yields s (expression (ofLevels n)) (Expr.IsSourced s)
  nestedStatement : ∀ jumps, Yields s (nestedStatement (ofLevels n) jumps) (Stmt.IsSourced s)
  unary : Yields s (nested (ofLevels n) fun g => g.unary) (Expr.IsSourced s)
  operand : ∀ level tighter op loc left, s.Marks loc → left.IsSourced s →
    Yields s (nested (ofLevels n) fun g => g.operand level tighter op loc left) (Expr.IsSourced s)
  access : ∀ object, object.IsSourced s → Yields s (nested (ofLevels n) fun g => g.access object) (Expr.IsSourced s)

theorem callLocation_spans {callee : Expr} {paren : Location} (hcallee : callee.IsSourced s)
    (hparen : s.Marks paren)
    : s.Spans (callLocation callee paren) := by
  unfold callLocation
  split
  . exact hcallee.spans _ callee.loc_mem_locations
  . exact hparen.spans

namespace SourcedAt

variable [s.Ended] {n : Nat} (h : SourcedAt s n)
include h

theorem braced (jumps : Jumps) : Yields s (braced (ofLevels n) jumps) (fun stmts => Sourced s (Stmt.locationsAll stmts) (Stmt.functionsAll stmts)) :=
  .after fun _ => (Yields.many (h.nestedStatement jumps)).bind fun _ hstmts =>
    .after fun _ => .pure (Stmt.sourcedAll hstmts)

theorem functionLiteral (named : Bool)
    : Yields s (functionLiteral (ofLevels n) named) (Function.IsSourced s) := by
  have hbody : Yields s (Grammar.functionLiteral (ofLevels n) named) fun f =>
      Sourced s f.locations f.body.functions := by
    unfold Grammar.functionLiteral
    refine Yields.location.bind fun start hstart => .after fun _ => .after fun t => ?_
    have hrest : ∀ name, Yields s (do
        Parser.expectSymbol .leftParen
        let params ← parameters
        Parser.expectSymbol .rightParen
        let body ← Grammar.braced (ofLevels n) { inFunction := true }
        return ⟨name, params, .block body, start.through (← Parser.previous).loc⟩ : Parser Function)
        fun f => Sourced s f.locations f.body.functions := by
      intro name
      refine .after fun _ => .after fun params => .after fun _ => ?_
      refine (h.braced _).bind fun stmts hstmts => Yields.previous.bind fun last hlast => .pure ?_
      exact .loc ⟨_, _, hstart, hlast, rfl⟩ hstmts
    split
    . exact .after hrest
    . exact .after hrest
    . exact .pure_bind (hrest none)
  refine hbody.self.mono fun f hf => ?_
  obtain ⟨hf, i, j, hi, hok⟩ := hf
  cases f
  exact .function (.literal hi hok) hf

theorem property : Yields s (property (ofLevels n)) fun q => q.value.IsSourced s := by
  unfold Grammar.property
  refine Yields.location.bind fun loc hloc => .after fun key => .after fun colon => .ite ?_ ?_
  . exact h.expression.bind fun e he => .pure he
  . refine .after fun comma => .after fun brace => .ite ?_ .unexpected
    exact .pure (.mark hloc)

theorem arrayLiteral : Yields s (arrayLiteral (ofLevels n)) (Expr.IsSourced s) := by
  refine Yields.location.bind fun start hstart => .after fun _ => (Yields.listUntil h.expression).bind fun es hes => ?_
  exact .after fun _ => Yields.previous.bind fun last hlast => .pure (.loc ⟨_, _, hstart, hlast, rfl⟩ (Expr.sourcedAll hes))

theorem objectLiteral : Yields s (objectLiteral (ofLevels n)) (Expr.IsSourced s) := by
  refine Yields.location.bind fun start hstart => .after fun _ => (Yields.listUntil h.property).bind fun ps hps => ?_
  exact .after fun _ => Yields.previous.bind fun last hlast =>
    .pure (.loc ⟨_, _, hstart, hlast, rfl⟩ (Property.sourcedAll hps))

theorem primary : Yields s (primary (ofLevels n)) (Expr.IsSourced s) := by
  have hliteral : ∀ {t e}, s.Marks t.loc → literal? t = some e → e.IsSourced s := by
    intro t e ht he
    unfold literal? at he
    split at he <;> cases he <;> exact .mark ht
  unfold Grammar.primary
  refine Yields.peek.bind fun t ht => ?_
  split
  . next e he => exact .after fun _ => .pure (hliteral ht he)
  . split
    . exact (h.functionLiteral _).bind fun f hf => .pure hf
    . exact h.arrayLiteral
    . exact h.objectLiteral
    . refine .after fun _ => h.expression.bind fun e he => ?_
      exact .after fun _ => .pure he
    . exact .unexpected

omit [s.Ended] in
theorem accesses {e : Expr} (he : e.IsSourced s) : Yields s (accesses (ofLevels n) e) (Expr.IsSourced s) := by
  unfold Grammar.accesses
  refine .after fun t => ?_
  split
  . exact h.access e he
  . exact h.access e he
  . exact h.access e he
  . exact .pure he

theorem accessRule {e : Expr} (he : e.IsSourced s) : Yields s (accessRule (ofLevels n) e) (Expr.IsSourced s) := by
  unfold Grammar.accessRule
  refine Yields.peek.bind fun t ht => .after fun _ => ?_
  split
  . refine (Yields.listUntil h.expression).bind fun args hargs => .after fun _ => h.accesses ?_
    exact .loc (callLocation_spans he ht) (.append he (Expr.sourcedAll hargs))
  . exact Yields.location.bind fun loc hloc => .after fun property => h.accesses (.loc hloc.spans he)
  . refine h.expression.bind fun key hkey => .after fun _ => Yields.previous.bind fun last hlast => h.accesses ?_
    exact .loc ⟨_, _, ht, hlast, rfl⟩ (.append he hkey)

theorem updated : Yields s (updated (ofLevels n)) (Expr.IsSourced s) := by
  unfold Grammar.updated
  refine h.primary.bind fun e he => (h.accesses he).bind fun operand hoperand => ?_
  refine .after fun newline => .ite (.pure hoperand) (Yields.peek.bind fun t ht => ?_)
  dsimp only
  split
  . exact .pure hoperand
  . refine .ite (.after fun _ => .pure (.loc ht.spans hoperand)) ?_
    exact .fail_bind (hoperand.spans _ operand.loc_mem_locations)

theorem unaryRule : Yields s (unaryRule (ofLevels n)) (Expr.IsSourced s) := by
  unfold Grammar.unaryRule
  refine Yields.peek.bind fun t ht => ?_
  split
  . exact h.updated
  . refine .after fun _ => h.unary.bind fun operand hoperand => .ite ?_ ?_
    . exact .fail_bind (hoperand.spans _ operand.loc_mem_locations)
    . exact .pure (.loc ht.spans hoperand)

theorem operators {level : Precedence} {tighter : List Precedence} {left : Expr} (hleft : left.IsSourced s)
    : Yields s (operators (ofLevels n) level tighter left) (Expr.IsSourced s) := by
  unfold Grammar.operators
  refine Yields.peek.bind fun t ht => ?_
  split
  . exact .pure hleft
  . exact .after fun _ => h.operand _ _ _ _ _ ht hleft

theorem binary (levels : List Precedence) : Yields s (binary (ofLevels n) levels) (Expr.IsSourced s) := by
  induction levels with
  | nil => exact h.unaryRule
  | cons level tighter ih => exact ih.bind fun e he => h.operators he

theorem operandRule {level : Precedence} {tighter : List Precedence} {op : BinaryOp} {loc : Location}
    {left : Expr} (hloc : s.Marks loc) (hleft : left.IsSourced s)
    : Yields s (operandRule (ofLevels n) level tighter op loc left) (Expr.IsSourced s) :=
  (h.binary tighter).bind fun _ hright => h.operators (.loc hloc.spans (.append hleft hright))

theorem conditional : Yields s (conditional (ofLevels n)) (Expr.IsSourced s) := by
  unfold Grammar.conditional
  refine (h.binary precedences).bind fun condition hcondition => ?_
  refine Yields.location.bind fun loc hloc => .after fun question => .ite ?_ (.pure hcondition)
  refine h.expression.bind fun whenTrue htrue => .after fun _ => ?_
  refine h.expression.bind fun whenFalse hfalse => .pure ?_
  exact .loc hloc.spans (.append (.append hcondition htrue) hfalse)

theorem arrowFunction : Yields s (arrowFunction (ofLevels n)) (Expr.IsSourced s) := by
  let Body (e : Expr) : Prop := ∃ f, e = .function f ∧ Sourced s f.locations f.body.functions
  have hblock : Yields s (FunctionBody.block <$> Grammar.braced (ofLevels n) { inFunction := true })
      (fun body => Sourced s body.locations body.functions) := .map (h.braced _)
  have hvalue : Yields s (FunctionBody.expr <$> Grammar.expression (ofLevels n))
      (fun body => Sourced s body.locations body.functions) := .map h.expression
  have hbody : ∀ (start : Location) (params : List String), s.Marks start → Yields s (do
      Parser.expectSymbol .arrow
      let body ← if ← Parser.checkSymbol .leftBrace then
          FunctionBody.block <$> Grammar.braced (ofLevels n) { inFunction := true }
        else
          FunctionBody.expr <$> Grammar.expression (ofLevels n)
      return .function ⟨none, params, body, start.through (← Parser.previous).loc⟩ : Parser Expr) Body := by
    intro start params hstart
    have hdone : ∀ body : FunctionBody, Sourced s body.locations body.functions → Yields s (do
        return .function ⟨none, params, body, start.through (← Parser.previous).loc⟩ : Parser Expr) Body :=
      fun body hbody => Yields.previous.bind fun last hlast =>
        .pure ⟨_, rfl, .loc ⟨_, _, hstart, hlast, rfl⟩ hbody⟩
    refine .after fun _ => .after fun brace => .ite ?_ ?_
    . exact hblock.bind hdone
    . exact hvalue.bind hdone
  have hrule : Yields s (Grammar.arrowFunction (ofLevels n)) Body := by
    unfold Grammar.arrowFunction
    refine Yields.location.bind fun start hstart => .after fun paren => .ite ?_ ?_
    . exact .after fun params => .after fun _ => hbody start params hstart
    . exact .after fun name => hbody start [name] hstart
  refine hrule.self.mono ?_
  rintro e ⟨⟨f, rfl, hf⟩, i, j, hi, hok⟩
  cases f
  exact .function (.arrow hi hok) hf

theorem assignmentRule : Yields s (assignmentRule (ofLevels n)) (Expr.IsSourced s) := by
  unfold Grammar.assignmentRule
  refine .after fun arrow => .ite h.arrowFunction ?_
  refine h.conditional.bind fun target htarget => Yields.peek.bind fun t ht => ?_
  split
  . exact .pure htarget
  . next op? _ =>
    refine .ite ?_ (.fail_bind (htarget.spans _ target.loc_mem_locations))
    refine .after fun _ => h.expression.bind fun value hvalue => ?_
    cases op? with
    | none => exact .pure (.loc ht.spans (.append htarget hvalue))
    | some op => exact .pure (.loc ht.spans (.append htarget hvalue))

/-! Statements. -/

theorem body (jumps : Jumps)
    : Yields s (body (ofLevels n) jumps) fun stmts => Sourced s (Stmt.locationsAll stmts) (Stmt.functionsAll stmts) := by
  unfold Grammar.body
  refine .after fun brace => .ite (h.braced jumps) ?_
  exact (h.nestedStatement jumps).bind fun st hst => .pure (Stmt.sourcedAll (List.forall_mem_singleton.2 hst))

theorem condition : Yields s (condition (ofLevels n)) (Expr.IsSourced s) :=
  .after fun _ => h.expression.bind fun _ he => .after fun _ => .pure he

theorem declarator (kind : DeclareKind)
    : Yields s (declarator (ofLevels n) kind) fun d =>
        Sourced s (d.loc :: Expr.locations? d.init) (Expr.functions? d.init) := by
  have hinit : Yields s (some <$> Grammar.expression (ofLevels n)) fun init =>
      Sourced s (Expr.locations? init) (Expr.functions? init) := .map h.expression
  unfold Grammar.declarator
  refine Yields.location.bind fun loc hloc => .after fun name => .after fun assign => .ite ?_ ?_
  . refine hinit.bind fun init hinit => .ite ?_ (.pure (.loc hloc.spans hinit))
    exact .fail_bind hloc.spans
  . exact .ite (.fail_bind hloc.spans) (.pure (.mark hloc))

theorem declaration (kind : DeclareKind) : Yields s (declaration (ofLevels n) kind) (Stmt.IsSourced s) := by
  refine Yields.location.bind fun loc hloc => .after fun _ => ?_
  exact (Yields.commaSeparated (h.declarator kind)).bind fun ds hds => .pure (.loc hloc.spans (Declarator.sourcedAll hds))

variable {loc : Location} (hloc : s.Marks loc)
include hloc

theorem returnStatement : Yields s (returnStatement (ofLevels n) loc) (Stmt.IsSourced s) := by
  have hvalue : Yields s (some <$> Grammar.expression (ofLevels n)) fun value =>
      Sourced s (Expr.locations? value) (Expr.functions? value) := .map h.expression
  unfold Grammar.returnStatement
  refine .after fun semicolon => .after fun brace => .after fun atEnd => .after fun newline => .ite ?_ ?_
  . exact .pure_bind (.after fun _ => .pure (.mark hloc))
  . exact hvalue.bind fun value hvalue => .after fun _ => .pure (.loc hloc.spans hvalue)

theorem ifStatement (jumps : Jumps) : Yields s (ifStatement (ofLevels n) jumps loc) (Stmt.IsSourced s) := by
  have helse : Yields s (some <$> Grammar.body (ofLevels n) jumps) fun stmts =>
      Sourced s (Stmt.locationsAll? stmts) (Stmt.functionsAll? stmts) := .map (h.body jumps)
  unfold Grammar.ifStatement
  refine h.condition.bind fun test htest => (h.body jumps).bind fun thenBranch hthen => ?_
  have hrest : ∀ elseBranch, Sourced s (Stmt.locationsAll? elseBranch) (Stmt.functionsAll? elseBranch) →
      Yields s (pure (Stmt.if test thenBranch elseBranch loc)) (Stmt.IsSourced s) :=
    fun elseBranch helse => .pure (.loc hloc.spans (.append (.append htest hthen) helse))
  refine .after fun found => .ite (helse.bind hrest) ?_
  exact .pure_bind (hrest none .nil)

theorem whileStatement (jumps : Jumps) : Yields s (whileStatement (ofLevels n) jumps loc) (Stmt.IsSourced s) :=
  h.condition.bind fun _ htest => (h.body _).bind fun _ hbody => .pure (.loc hloc.spans (.append htest hbody))

theorem doStatement (jumps : Jumps) : Yields s (doStatement (ofLevels n) jumps loc) (Stmt.IsSourced s) := by
  refine (h.body _).bind fun body hbody => .after fun _ => h.condition.bind fun test htest => ?_
  exact .after fun _ => .pure (.loc hloc.spans (.append hbody htest))

omit [s.Ended] hloc in
theorem optionalExpression (close : Symbol)
    : Yields s (optionalExpression (ofLevels n) close) fun e =>
        Sourced s (Expr.locations? e) (Expr.functions? e) := by
  refine .after fun found => .ite (.pure .nil) ?_
  exact h.expression.bind fun e he => .pure he

omit hloc in
theorem forInit
    : Yields s (forInit (ofLevels n)) fun init => Sourced s (Stmt.locations? init) (Stmt.functions? init) := by
  unfold Grammar.forInit
  refine Yields.peek.bind fun t ht => .ite (.pure .nil) ?_
  split
  . exact (h.declaration _).bind fun st hst => .pure hst
  . exact h.expression.bind fun e he => .pure (.loc ht.spans he)

theorem forStatement (jumps : Jumps) : Yields s (forStatement (ofLevels n) jumps loc) (Stmt.IsSourced s) := by
  refine .after fun _ => h.forInit.bind fun init hinit => .after fun _ => ?_
  refine (h.optionalExpression _).bind fun test htest => .after fun _ => ?_
  refine (h.optionalExpression _).bind fun update hupdate => .after fun _ => ?_
  refine (h.body _).bind fun body hbody => .pure ?_
  exact .loc hloc.spans (.append (.append (.append hinit htest) hupdate) hbody)

theorem tryStatement (jumps : Jumps) : Yields s (tryStatement (ofLevels n) jumps loc) (Stmt.IsSourced s) := by
  have hfinally : Yields s (some <$> Grammar.braced (ofLevels n) jumps) fun stmts =>
      Sourced s (Stmt.locationsAll? stmts) (Stmt.functionsAll? stmts) := .map (h.braced jumps)
  unfold Grammar.tryStatement
  refine (h.braced jumps).bind fun block hblock => .after fun found => ?_
  have hrest : ∀ handler, Sourced s (Handler.locations? handler) (Handler.functions? handler) → Yields s (do
      let finalizer ← if ← Parser.acceptKeyword .finally then
          some <$> Grammar.braced (ofLevels n) jumps
        else pure none
      if handler.isNone && finalizer.isNone then
        Parser.fail .missingHandler (← Parser.location)
      return .try block handler finalizer loc : Parser Stmt) (Stmt.IsSourced s) := by
    intro handler hhandler
    have hdone : ∀ finalizer, Sourced s (Stmt.locationsAll? finalizer) (Stmt.functionsAll? finalizer) →
        Yields s (do
          if handler.isNone && finalizer.isNone then
            Parser.fail .missingHandler (← Parser.location)
          return .try block handler finalizer loc : Parser Stmt) (Stmt.IsSourced s) := by
      intro finalizer hfinalizer
      refine .ite (Yields.location.bind fun loc hloc => .fail_bind hloc.spans) (.pure ?_)
      exact .loc hloc.spans (.append (.append hblock hhandler) hfinalizer)
    refine .after fun found => .ite (hfinally.bind hdone) ?_
    exact .pure_bind (hdone none .nil)
  refine .ite ?_ (.pure_bind (hrest none .nil))
  refine .after fun param => (h.braced jumps).bind fun body hbody => ?_
  exact .pure_bind (hrest (some ⟨param, body⟩) hbody)

theorem throwStatement : Yields s (throwStatement (ofLevels n) loc) (Stmt.IsSourced s) := by
  refine .after fun newline => .ite (.fail_bind hloc.spans) ?_
  exact h.expression.bind fun value hvalue => .after fun _ => .pure (.loc hloc.spans hvalue)

omit hloc in
theorem statementRule (jumps : Jumps) : Yields s (statementRule (ofLevels n) jumps) (Stmt.IsSourced s) := by
  have hdeclare : ∀ kind, Yields s (do
      let declared ← Grammar.declaration (ofLevels n) kind
      Parser.semicolon
      return declared) (Stmt.IsSourced s) :=
    fun kind => (h.declaration kind).bind fun st hst => .after fun _ => .pure hst
  have hjump : ∀ {st : Stmt}, st.IsSourced s → Yields s (do
      Parser.advance
      Parser.semicolon
      return st) (Stmt.IsSourced s) :=
    fun hst => .after fun _ => .after fun _ => .pure hst
  unfold Grammar.statementRule
  refine Yields.peek.bind fun ⟨kind, loc⟩ hloc => ?_
  dsimp only at hloc ⊢
  have hfail : ∀ {fault} {x : Unit → Parser Stmt}, Yields s (Parser.fail fault loc >>= x) (Stmt.IsSourced s) :=
    .fail_bind hloc.spans
  split
  . exact hdeclare _
  . exact hdeclare _
  . exact hdeclare _
  . exact (h.functionLiteral true).bind fun f hf => .pure hf
  . exact .ite (.after fun _ => h.returnStatement hloc) hfail
  . exact .after fun _ => h.ifStatement hloc jumps
  . exact .after fun _ => h.whileStatement hloc jumps
  . exact .after fun _ => h.doStatement hloc jumps
  . exact .after fun _ => h.forStatement hloc jumps
  . exact .ite (hjump (.mark hloc)) hfail
  . exact .ite (hjump (.mark hloc)) hfail
  . exact .after fun _ => h.throwStatement hloc
  . exact .after fun _ => h.tryStatement hloc jumps
  . exact (h.braced jumps).bind fun stmts hstmts => .pure (.loc hloc.spans hstmts)
  . exact .after fun _ => .pure (.mark hloc)
  . exact h.expression.bind fun e he => .after fun _ => .pure (.loc hloc.spans he)

end SourcedAt

theorem sourcedAt (s : TokenStream) [s.Ended] (n : Nat) : SourcedAt s n := by
  induction n with
  | zero => exact ⟨.nested nofun, fun _ => .nested nofun, .nested nofun, fun _ _ _ _ _ _ _ => .nested nofun,
      fun _ _ => .nested nofun⟩
  | succ n ih => exact ⟨ih.assignmentRule, ih.statementRule, ih.unaryRule, fun _ _ _ _ _ => ih.operandRule,
      fun _ => ih.accessRule⟩

theorem script_sourced (s : TokenStream) [s.Ended]
    : Yields s script fun stmts => Sourced s (Stmt.locationsAll stmts) (Stmt.functionsAll stmts) := by
  unfold script
  exact (Yields.many ((sourcedAt s maxNesting).nestedStatement {})).mono fun _ => Stmt.sourcedAll

end Grammar

namespace Token.Divides

variable {text : List Char} {start : Nat} {tokens : Array Token}

theorem size_pos (h : Divides text start tokens.toList) : 0 < tokens.size := by
  obtain ⟨loc, hlast, -⟩ := h.last
  apply Nat.pos_of_ne_zero
  intro hzero
  rw [Array.eq_empty_of_size_eq_zero hzero] at hlast
  cases hlast

theorem ended (h : Divides text start tokens.toList) : (TokenStream.ofTokens tokens).Ended where
  succ_lt := by
    intro i hi hkind
    obtain ⟨loc, hlast, -⟩ := h.last
    rw [List.getLast?_eq_getElem?, Array.length_toList, Array.getElem?_toList] at hlast
    apply Nat.lt_of_not_le
    intro hle
    have hi' : i = tokens.size - 1 := Nat.le_antisymm (Nat.le_sub_one_of_lt hi) (Nat.sub_le_of_le_add hle)
    apply hkind
    subst hi'
    obtain ⟨_, hlast⟩ := Array.getElem?_eq_some_iff.1 hlast
    rw [TokenStream.get_eq_getElem hi]
    exact congrArg Token.kind hlast

theorem endOffset_le (h : Divides text start tokens.toList) {i k : Nat} (hik : i < k) (hk : k < tokens.size)
    : tokens[i].loc.endOffset ≤ tokens[k].loc.offset := by
  have := List.pairwise_iff_getElem.1 h.ordered i k (by simp; omega) (by simpa using hk) hik
  simpa using this

end Token.Divides

theorem parse_sourced {source : String} {stmts : List Stmt} (h : parse source = .ok stmts)
    : ∃ tokens, Token.scan source.toList = .ok tokens ∧
      Sourced (.ofTokens tokens) (Stmt.locationsAll stmts) (Stmt.functionsAll stmts) := by
  obtain ⟨tokens, i, hscan, hrun⟩ := parse_eq_ok_iff.1 h
  have hdivides := Token.divides_of_scan hscan
  have := hdivides.ended
  refine ⟨tokens, hscan, ?_⟩
  rcases Grammar.script_sourced (.ofTokens tokens) 0 hdivides.size_pos with ⟨stmts', j, hok, -, hsourced⟩ | ⟨e, herror, -⟩
  . cases hrun.symm.trans hok
    exact hsourced
  . cases hrun.symm.trans herror

end ScriptHost
