import Mathlib.Algebra.Group.Nat.Defs
import ScriptHost.Proofs.Syntax.Gives

/-!
This module contains how high a tree can get that is read with a number of nesting levels. The levels that a
chain of operators or accesses takes are given back at its end, where the chain becomes an operand of the next
one, so every level adds as many times to the height as there are kinds of chains.
-/

namespace ScriptHost

/-! The number of expressions and statements on the longest path from the root to a leaf. -/

mutual

def Expr.height : Expr → Nat
  | .number .. | .string .. | .bool .. | .null _ | .undefined _ | .name .. => 1
  | .array elements _ => Expr.heightAll elements + 1
  | .object properties _ => Property.heightAll properties + 1
  | .function f => f.height + 1
  | .binary _ left right _ => max left.height right.height + 1
  | .unary _ operand _ => operand.height + 1
  | .assign target value _ | .compound _ target value _ => max target.height value.height + 1
  | .conditional condition whenTrue whenFalse _ =>
    max condition.height (max whenTrue.height whenFalse.height) + 1
  | .call callee args _ => max callee.height (Expr.heightAll args) + 1
  | .member object _ _ => object.height + 1
  | .index object key _ => max object.height key.height + 1

def Expr.heightAll : List Expr → Nat
  | [] => 0
  | e :: es => max e.height (Expr.heightAll es)

def Expr.height? : Option Expr → Nat
  | some e => e.height
  | none => 0

def Property.heightAll : List Property → Nat
  | [] => 0
  | ⟨_, value⟩ :: ps => max value.height (Property.heightAll ps)

def Function.height : Function → Nat
  | ⟨_, _, body, _⟩ => body.height

def FunctionBody.height : FunctionBody → Nat
  | .block stmts => Stmt.heightAll stmts
  | .expr value => value.height

def Stmt.height : Stmt → Nat
  | .declare _ declarators _ => Declarator.heightAll declarators + 1
  | .function f => f.height + 1
  | .return value _ => Expr.height? value + 1
  | .if condition thenBranch elseBranch _ =>
    max condition.height (max (Stmt.heightAll thenBranch) (Stmt.heightAll? elseBranch)) + 1
  | .while condition body _ | .doWhile body condition _ =>
    max condition.height (Stmt.heightAll body) + 1
  | .for init condition update body _ =>
    max (max (Stmt.height? init) (Expr.height? condition))
      (max (Expr.height? update) (Stmt.heightAll body)) + 1
  | .break _ | .continue _ | .empty _ => 1
  | .throw value _ => value.height + 1
  | .try block handler finalizer _ =>
    max (Stmt.heightAll block) (max (Handler.height? handler) (Stmt.heightAll? finalizer)) + 1
  | .block stmts _ => Stmt.heightAll stmts + 1
  | .expr value _ => value.height + 1

def Stmt.height? : Option Stmt → Nat
  | some st => st.height
  | none => 0

def Stmt.heightAll : List Stmt → Nat
  | [] => 0
  | st :: stmts => max st.height (Stmt.heightAll stmts)

def Stmt.heightAll? : Option (List Stmt) → Nat
  | some stmts => Stmt.heightAll stmts
  | none => 0

def Declarator.heightAll : List Declarator → Nat
  | [] => 0
  | ⟨_, init, _⟩ :: ds => max (Expr.height? init) (Declarator.heightAll ds)

def Handler.height? : Option Handler → Nat
  | some ⟨_, body⟩ => Stmt.heightAll body
  | none => 0

end

theorem Expr.heightAll_le {es : List Expr} {b : Nat} (h : ∀ e ∈ es, e.height ≤ b)
    : Expr.heightAll es ≤ b := by
  induction es with
  | nil => exact Nat.zero_le b
  | cons e es ih =>
    obtain ⟨he, hes⟩ := List.forall_mem_cons.1 h
    exact Nat.max_le.2 ⟨he, ih hes⟩

theorem Property.heightAll_le {ps : List Property} {b : Nat} (h : ∀ q ∈ ps, q.value.height ≤ b)
    : Property.heightAll ps ≤ b := by
  induction ps with
  | nil => exact Nat.zero_le b
  | cons q ps ih =>
    obtain ⟨hq, hps⟩ := List.forall_mem_cons.1 h
    cases q
    exact Nat.max_le.2 ⟨hq, ih hps⟩

theorem Stmt.heightAll_le {stmts : List Stmt} {b : Nat} (h : ∀ st ∈ stmts, st.height ≤ b)
    : Stmt.heightAll stmts ≤ b := by
  induction stmts with
  | nil => exact Nat.zero_le b
  | cons st stmts ih =>
    obtain ⟨hst, hstmts⟩ := List.forall_mem_cons.1 h
    exact Nat.max_le.2 ⟨hst, ih hstmts⟩

theorem Declarator.heightAll_le {ds : List Declarator} {b : Nat}
    (h : ∀ d ∈ ds, Expr.height? d.init ≤ b)
    : Declarator.heightAll ds ≤ b := by
  induction ds with
  | nil => exact Nat.zero_le b
  | cons d ds ih =>
    obtain ⟨hd, hds⟩ := List.forall_mem_cons.1 h
    cases d
    exact Nat.max_le.2 ⟨hd, ih hds⟩

namespace Grammar

/-- Every operator is one level higher than what stands in front of it. -/
theorem operators_bounded {level : Precedence} {tighter : List Precedence} {n m c : Nat} (hm : m ≤ n)
    (hright : ∀ m ≤ n, Gives (binary (ofLevels m) tighter) (·.height ≤ c)) (e : Expr)
    : Gives (operators (ofLevels m) level tighter e) (·.height ≤ m + max e.height c) := by
  induction m generalizing e with
  | zero =>
    unfold operators
    refine .after fun t => ?_
    split
    . exact .pure (Nat.le_add_left_of_le (Nat.le_max_left _ _))
    . exact .after fun _ => .nested nofun
  | succ m ih =>
    have hm' : m ≤ n := Nat.le_of_succ_le hm
    unfold operators
    refine .after fun t => ?_
    split
    . exact .pure (Nat.le_add_left_of_le (Nat.le_max_left _ _))
    . next op _ =>
      refine .after fun _ => .nested ?_
      rintro _ ⟨⟩
      change Gives (operandRule (ofLevels m) level tighter op t.loc e) _
      refine (hright m hm').bind fun right hle => (ih hm' (.binary op e right t.loc)).mono fun e' he' => ?_
      have hheight : (Expr.binary op e right t.loc).height = max e.height right.height + 1 := rfl
      omega

/-- Nothing that is nested with at most `n` levels is higher than `b`. -/
structure Bounded (n b : Nat) : Prop where
  pos : 0 < b
  expression : ∀ m ≤ n, Gives (expression (ofLevels m)) (·.height ≤ b)
  nestedStatement : ∀ m ≤ n, ∀ jumps, Gives (nestedStatement (ofLevels m) jumps) (·.height ≤ b)

namespace Bounded

variable {n b m : Nat} (h : Bounded n b) (hm : m ≤ n)
include h hm

theorem braced (jumps : Jumps) : Gives (braced (ofLevels m) jumps) (Stmt.heightAll · ≤ b) := by
  refine .after fun _ => (Gives.many (h.nestedStatement m hm jumps)).bind fun stmts hstmts => ?_
  exact .after fun _ => .pure (Stmt.heightAll_le hstmts)

theorem functionLiteral (named : Bool)
    : Gives (functionLiteral (ofLevels m) named) (·.height ≤ b) := by
  unfold Grammar.functionLiteral
  refine .after fun start => .after fun _ => .after fun t => ?_
  have hrest : ∀ name, Gives (do
      Parser.expectSymbol .leftParen
      let params ← parameters
      Parser.expectSymbol .rightParen
      let body ← Grammar.braced (ofLevels m) { inFunction := true }
      return ⟨name, params, .block body, start.through (← Parser.previous).loc⟩ : Parser Function)
      (·.height ≤ b) := by
    intro name
    refine .after fun _ => .after fun params => .after fun _ => ?_
    exact (h.braced hm _).bind fun stmts hstmts => .after fun _ => .pure hstmts
  split
  . exact .after hrest
  . exact .after hrest
  . exact .after hrest

theorem property : Gives (property (ofLevels m)) (·.value.height ≤ b) := by
  unfold Grammar.property
  refine .after fun loc => .after fun key => .after fun colon => .ite ?_ ?_
  . exact (h.expression m hm).bind fun e he => .pure he
  . refine .after fun comma => .after fun brace => .ite ?_ .unexpected
    exact .pure h.pos

theorem primary : Gives (primary (ofLevels m)) (·.height ≤ b + 1) := by
  have hliteral : ∀ {t e}, literal? t = some e → e.height ≤ b + 1 := by
    intro t e he
    unfold literal? at he
    split at he <;> cases he <;> exact Nat.le_add_left 1 b
  unfold Grammar.primary
  refine .after fun t => ?_
  split
  . next e he => exact .after fun _ => .pure (hliteral he)
  . split
    . exact (h.functionLiteral hm _).bind fun f hf => .pure (Nat.succ_le_succ hf)
    . refine .after fun start => .after fun _ => (Gives.listUntil (h.expression m hm)).bind fun es hes => ?_
      exact .after fun _ => .after fun _ => .pure (Nat.succ_le_succ (Expr.heightAll_le hes))
    . refine .after fun start => .after fun _ => (Gives.listUntil (h.property hm)).bind fun ps hps => ?_
      exact .after fun _ => .after fun _ => .pure (Nat.succ_le_succ (Property.heightAll_le hps))
    . refine .after fun _ => (h.expression m hm).bind fun e he => ?_
      exact .after fun _ => .pure (Nat.le_succ_of_le he)
    . exact .unexpected

/-- Every access is one level higher than what stands in front of it. -/
theorem accesses (e : Expr) : Gives (accesses (ofLevels m) e) (·.height ≤ m + max e.height b) := by
  have hstop : ∀ (e : Expr) m, Gives (Pure.pure e : Parser Expr) (·.height ≤ m + max e.height b) :=
    fun e m => .pure (Nat.le_add_left_of_le (Nat.le_max_left _ _))
  induction m generalizing e with
  | zero =>
    unfold Grammar.accesses
    refine .after fun t => ?_
    split
    . exact .nested nofun
    . exact .nested nofun
    . exact .nested nofun
    . exact hstop e 0
  | succ m ih =>
    have hm' : m ≤ n := Nat.le_of_succ_le hm
    have hrest : ∀ e' : Expr, e'.height ≤ max e.height b + 1 →
        Gives (Grammar.accesses (ofLevels m) e') (·.height ≤ m + 1 + max e.height b) := by
      intro e' he'
      refine (ih hm' e').mono fun e'' he'' => ?_
      omega
    have haccess : Gives (accessRule (ofLevels m) e) (·.height ≤ m + 1 + max e.height b) := by
      unfold accessRule
      refine .after fun t => .after fun _ => ?_
      split
      . refine (Gives.listUntil (h.expression m hm')).bind fun args hargs => .after fun _ => hrest _ ?_
        exact Nat.succ_le_succ (Nat.max_le.2 ⟨Nat.le_max_left _ _,
          Nat.le_trans (Expr.heightAll_le hargs) (Nat.le_max_right _ _)⟩)
      . refine .after fun loc => .after fun property => hrest _ ?_
        exact Nat.succ_le_succ (Nat.le_max_left _ _)
      . refine (h.expression m hm').bind fun key hkey => .after fun _ => .after fun last => hrest _ ?_
        exact Nat.succ_le_succ (Nat.max_le.2 ⟨Nat.le_max_left _ _, Nat.le_trans hkey (Nat.le_max_right _ _)⟩)
    have hnested : Gives (nested (ofLevels (m + 1)) fun g => g.access e)
        (·.height ≤ m + 1 + max e.height b) := by
      apply Gives.nested
      rintro _ ⟨⟩
      exact haccess
    unfold Grammar.accesses
    refine .after fun t => ?_
    split
    . exact hnested
    . exact hnested
    . exact hnested
    . exact hstop e (m + 1)

theorem updated : Gives (updated (ofLevels m)) (·.height ≤ m + b + 2) := by
  unfold Grammar.updated
  refine (h.primary hm).bind fun e he => (h.accesses hm e).bind fun operand hoperand => ?_
  have hle : operand.height ≤ m + b + 1 := by omega
  refine .after fun newline => .ite (.pure (Nat.le_succ_of_le hle)) (.after fun t => ?_)
  dsimp only
  split
  . exact .pure (Nat.le_succ_of_le hle)
  . refine .ite (.after fun _ => .pure (Nat.succ_le_succ hle)) ?_
    exact .fail_bind

theorem unaryRule : Gives (unaryRule (ofLevels m)) (·.height ≤ m + b + 2) := by
  induction m with
  | zero =>
    unfold Grammar.unaryRule
    refine .after fun t => ?_
    split
    . exact h.updated hm
    . exact .after fun _ => Gives.bind (Q := fun _ => False) (.nested nofun) fun _ hfalse => hfalse.elim
  | succ m ih =>
    have hoperand : Gives (nested (ofLevels (m + 1)) fun g => g.unary) (·.height ≤ m + b + 2) := by
      apply Gives.nested
      rintro _ ⟨⟩
      exact ih (Nat.le_of_succ_le hm)
    unfold Grammar.unaryRule
    refine .after fun t => ?_
    split
    . exact h.updated hm
    . refine .after fun _ => hoperand.bind fun operand hoperand => .ite .fail_bind ?_
      refine .pure ?_
      change operand.height + 1 ≤ _
      omega

theorem binary (levels : List Precedence)
    : Gives (binary (ofLevels m) levels) (·.height ≤ b + 2 + (levels.length + 1) * n) := by
  induction levels generalizing m with
  | nil =>
    refine (h.unaryRule hm).mono fun e he => ?_
    rw [List.length_nil, Nat.zero_add, Nat.one_mul]
    omega
  | cons level tighter ih =>
    refine (ih hm).bind fun e he => ?_
    refine (operators_bounded hm (fun m hm => ih hm) e).mono fun e' he' => ?_
    rw [List.length_cons, Nat.succ_mul]
    omega

theorem conditional : Gives (conditional (ofLevels m)) (·.height ≤ b + 3 + 7 * n) := by
  unfold Grammar.conditional
  refine (h.binary hm precedences).bind fun condition hcondition => ?_
  have hle : condition.height ≤ b + 2 + 7 * n := hcondition
  refine .after fun loc => .after fun question => .ite ?_ (.pure (by omega))
  refine (h.expression m hm).bind fun whenTrue htrue => .after fun _ => ?_
  refine (h.expression m hm).bind fun whenFalse hfalse => .pure ?_
  change max condition.height (max whenTrue.height whenFalse.height) + 1 ≤ _
  omega

theorem arrowFunction : Gives (arrowFunction (ofLevels m)) (·.height ≤ b + 1) := by
  have hblock : Gives (FunctionBody.block <$> Grammar.braced (ofLevels m) { inFunction := true })
      (·.height ≤ b) := .map (h.braced hm _)
  have hvalue : Gives (FunctionBody.expr <$> Grammar.expression (ofLevels m)) (·.height ≤ b) :=
    .map (h.expression m hm)
  have hbody : ∀ (start : Location) (params : List String), Gives (do
      Parser.expectSymbol .arrow
      let body ← if ← Parser.checkSymbol .leftBrace then
          FunctionBody.block <$> Grammar.braced (ofLevels m) { inFunction := true }
        else
          FunctionBody.expr <$> Grammar.expression (ofLevels m)
      return .function ⟨none, params, body, start.through (← Parser.previous).loc⟩ : Parser Expr)
      (·.height ≤ b + 1) := by
    intro start params
    refine .after fun _ => .after fun brace => .ite ?_ ?_
    . exact hblock.bind fun body hbody => .after fun last => .pure (Nat.succ_le_succ hbody)
    . exact hvalue.bind fun body hbody => .after fun last => .pure (Nat.succ_le_succ hbody)
  unfold Grammar.arrowFunction
  refine .after fun start => .after fun paren => .ite ?_ ?_
  . exact .after fun params => .after fun _ => hbody start params
  . exact .after fun name => hbody start [name]

theorem assignmentRule : Gives (assignmentRule (ofLevels m)) (·.height ≤ b + 4 + 7 * n) := by
  unfold Grammar.assignmentRule
  refine .after fun arrow => .ite ((h.arrowFunction hm).mono fun e he => by omega) ?_
  refine (h.conditional hm).bind fun target htarget => .after fun t => ?_
  split
  . exact .pure (by omega)
  . next op? _ =>
    refine .ite ?_ .fail_bind
    refine .after fun _ => (h.expression m hm).bind fun value hvalue => ?_
    have hheight : max target.height value.height + 1 ≤ b + 4 + 7 * n := by omega
    cases op? with
    | none => exact .pure hheight
    | some op => exact .pure hheight

/-! Statements. -/

theorem body (jumps : Jumps) : Gives (body (ofLevels m) jumps) (Stmt.heightAll · ≤ b) := by
  unfold Grammar.body
  refine .after fun brace => .ite (h.braced hm jumps) ?_
  refine (h.nestedStatement m hm jumps).bind fun st hst => .pure ?_
  exact Nat.max_le.2 ⟨hst, Nat.zero_le b⟩

theorem condition : Gives (condition (ofLevels m)) (·.height ≤ b) := by
  refine .after fun _ => (h.expression m hm).bind fun e he => .after fun _ => .pure he

theorem declarator (kind : DeclareKind)
    : Gives (declarator (ofLevels m) kind) (Expr.height? ·.init ≤ b) := by
  unfold Grammar.declarator
  refine .after fun loc => .after fun name => .after fun assign => .ite ?_ ?_
  . refine Gives.bind (.map (h.expression m hm)) fun init hinit => .ite .fail_bind (.pure hinit)
  . refine .ite .fail_bind (.pure (Nat.zero_le b))

theorem declaration (kind : DeclareKind) : Gives (declaration (ofLevels m) kind) (·.height ≤ b + 1) := by
  refine .after fun loc => .after fun _ => (Gives.commaSeparated (h.declarator hm kind)).bind fun ds hds => ?_
  exact .pure (Nat.succ_le_succ (Declarator.heightAll_le hds))

theorem returnStatement (loc : Location) : Gives (returnStatement (ofLevels m) loc) (·.height ≤ b + 1) := by
  have hvalue : Gives (some <$> Grammar.expression (ofLevels m)) (Expr.height? · ≤ b) :=
    .map (h.expression m hm)
  unfold Grammar.returnStatement
  refine .after fun semicolon => .after fun brace => .after fun atEnd => .after fun newline => .ite ?_ ?_
  . exact .pure_bind (.after fun _ => .pure (Nat.succ_le_succ (Nat.zero_le b)))
  . exact hvalue.bind fun value hvalue => .after fun _ => .pure (Nat.succ_le_succ hvalue)

theorem ifStatement (jumps : Jumps) (loc : Location)
    : Gives (ifStatement (ofLevels m) jumps loc) (·.height ≤ b + 1) := by
  have helse : Gives (some <$> Grammar.body (ofLevels m) jumps) (Stmt.heightAll? · ≤ b) :=
    .map (h.body hm jumps)
  unfold Grammar.ifStatement
  refine (h.condition hm).bind fun test htest => (h.body hm jumps).bind fun thenBranch hthen => ?_
  have hrest : ∀ elseBranch, Stmt.heightAll? elseBranch ≤ b →
      Gives (pure (Stmt.if test thenBranch elseBranch loc)) (·.height ≤ b + 1) :=
    fun elseBranch helse => .pure (Nat.succ_le_succ (Nat.max_le.2 ⟨htest, Nat.max_le.2 ⟨hthen, helse⟩⟩))
  refine .after fun found => .ite (helse.bind hrest) ?_
  exact .pure_bind (hrest none (Nat.zero_le b))

theorem whileStatement (jumps : Jumps) (loc : Location)
    : Gives (whileStatement (ofLevels m) jumps loc) (·.height ≤ b + 1) := by
  refine (h.condition hm).bind fun test htest => (h.body hm _).bind fun body hbody => .pure ?_
  exact Nat.succ_le_succ (Nat.max_le.2 ⟨htest, hbody⟩)

theorem doStatement (jumps : Jumps) (loc : Location)
    : Gives (doStatement (ofLevels m) jumps loc) (·.height ≤ b + 1) := by
  refine (h.body hm _).bind fun body hbody => .after fun _ => (h.condition hm).bind fun test htest => ?_
  exact .after fun _ => .pure (Nat.succ_le_succ (Nat.max_le.2 ⟨htest, hbody⟩))

theorem optionalExpression (close : Symbol)
    : Gives (optionalExpression (ofLevels m) close) (Expr.height? · ≤ b) := by
  refine .after fun found => .ite (.pure (Nat.zero_le b)) ?_
  exact (h.expression m hm).bind fun e he => .pure he

theorem forInit : Gives (forInit (ofLevels m)) (Stmt.height? · ≤ b + 1) := by
  unfold Grammar.forInit
  refine .after fun t => .ite (.pure (Nat.zero_le _)) ?_
  split
  . exact (h.declaration hm _).bind fun st hst => .pure hst
  . exact (h.expression m hm).bind fun e he => .pure (Nat.succ_le_succ he)

/-- A statement in front of a loop takes no level of nesting. -/
theorem forStatement (jumps : Jumps) (loc : Location)
    : Gives (forStatement (ofLevels m) jumps loc) (·.height ≤ b + 2) := by
  refine .after fun _ => (h.forInit hm).bind fun init hinit => .after fun _ => ?_
  refine (h.optionalExpression hm _).bind fun test htest => .after fun _ => ?_
  refine (h.optionalExpression hm _).bind fun update hupdate => .after fun _ => ?_
  refine (h.body hm _).bind fun body hbody => .pure ?_
  change max (max (Stmt.height? init) (Expr.height? test))
    (max (Expr.height? update) (Stmt.heightAll body)) + 1 ≤ _
  omega

theorem tryStatement (jumps : Jumps) (loc : Location)
    : Gives (tryStatement (ofLevels m) jumps loc) (·.height ≤ b + 1) := by
  have hfinally : Gives (some <$> Grammar.braced (ofLevels m) jumps) (Stmt.heightAll? · ≤ b) :=
    .map (h.braced hm jumps)
  unfold Grammar.tryStatement
  refine (h.braced hm jumps).bind fun block hblock => .after fun found => ?_
  have hrest : ∀ handler, Handler.height? handler ≤ b → Gives (do
      let finalizer ← if ← Parser.acceptKeyword .finally then
          some <$> Grammar.braced (ofLevels m) jumps
        else pure none
      if handler.isNone && finalizer.isNone then
        Parser.fail .missingHandler (← Parser.location)
      return .try block handler finalizer loc : Parser Stmt) (·.height ≤ b + 1) := by
    intro handler hhandler
    have hdone : ∀ finalizer, Stmt.heightAll? finalizer ≤ b → Gives (do
        if handler.isNone && finalizer.isNone then
          Parser.fail .missingHandler (← Parser.location)
        return .try block handler finalizer loc : Parser Stmt) (·.height ≤ b + 1) := by
      intro finalizer hfinalizer
      refine .ite (.after fun loc => .fail_bind) (.pure ?_)
      exact Nat.succ_le_succ (Nat.max_le.2 ⟨hblock, Nat.max_le.2 ⟨hhandler, hfinalizer⟩⟩)
    refine .after fun found => .ite (hfinally.bind hdone) ?_
    exact .pure_bind (hdone none (Nat.zero_le b))
  refine .ite ?_ (.pure_bind (hrest none (Nat.zero_le b)))
  refine .after fun param => (h.braced hm jumps).bind fun body hbody => ?_
  exact .pure_bind (hrest (some ⟨param, body⟩) hbody)

theorem throwStatement (loc : Location) : Gives (throwStatement (ofLevels m) loc) (·.height ≤ b + 1) := by
  refine .after fun newline => .ite .fail_bind ?_
  exact (h.expression m hm).bind fun value hvalue => .after fun _ => .pure (Nat.succ_le_succ hvalue)

theorem statementRule (jumps : Jumps) : Gives (statementRule (ofLevels m) jumps) (·.height ≤ b + 2) := by
  have hdeclare : ∀ kind, Gives (do
      let declared ← Grammar.declaration (ofLevels m) kind
      Parser.semicolon
      return declared) (·.height ≤ b + 2) :=
    fun kind => (h.declaration hm kind).bind fun st hst => .after fun _ => .pure (Nat.le_succ_of_le hst)
  have hjump : ∀ {st : Stmt}, st.height = 1 → Gives (do
      Parser.advance
      Parser.semicolon
      return st) (·.height ≤ b + 2) := by
    intro st hst
    refine .after fun _ => .after fun _ => .pure ?_
    omega
  have hlow : ∀ {x : Parser Stmt}, Gives x (·.height ≤ b + 1) → Gives x (·.height ≤ b + 2) :=
    fun hx => hx.mono fun _ => Nat.le_succ_of_le
  unfold Grammar.statementRule
  refine .after fun ⟨kind, loc⟩ => ?_
  dsimp only
  split
  . exact hdeclare _
  . exact hdeclare _
  . exact hdeclare _
  . exact (h.functionLiteral hm true).bind fun f hf => .pure (Nat.succ_le_succ (Nat.le_succ_of_le hf))
  . exact .ite (.after fun _ => hlow (h.returnStatement hm loc)) .fail_bind
  . exact .after fun _ => hlow (h.ifStatement hm jumps loc)
  . exact .after fun _ => hlow (h.whileStatement hm jumps loc)
  . exact .after fun _ => hlow (h.doStatement hm jumps loc)
  . exact .after fun _ => h.forStatement hm jumps loc
  . exact .ite (hjump rfl) .fail_bind
  . exact .ite (hjump rfl) .fail_bind
  . exact .after fun _ => hlow (h.throwStatement hm loc)
  . exact .after fun _ => hlow (h.tryStatement hm jumps loc)
  . refine (h.braced hm jumps).bind fun stmts hstmts => .pure ?_
    exact Nat.succ_le_succ (Nat.le_succ_of_le hstmts)
  . exact .after fun _ => .pure (Nat.le_add_left 1 (b + 1))
  . refine (h.expression m hm).bind fun e he => .after fun _ => .pure ?_
    exact Nat.succ_le_succ (Nat.le_succ_of_le he)

end Bounded

/--
How high what is nested in `n` levels can get. Each level adds no more than a chain for every precedence and
a chain of accesses.
-/
def tallest : Nat → Nat
  | 0 => 1
  | n + 1 => tallest n + 4 + 7 * n

theorem two_mul_tallest (n : Nat) : 2 * tallest n = 7 * n ^ 2 + n + 2 := by
  induction n with
  | zero => rfl
  | succ n ih =>
    have hsquare : (n + 1) ^ 2 = n ^ 2 + 2 * n + 1 := by grind
    rw [tallest, Nat.mul_add, Nat.mul_add, ih, hsquare]
    omega

theorem bounded_tallest (n : Nat) : Bounded n (tallest n) := by
  induction n with
  | zero =>
    refine ⟨Nat.one_pos, ?_, ?_⟩
    . rintro m hm
      cases Nat.le_zero.1 hm
      exact .nested nofun
    . rintro m hm jumps
      cases Nat.le_zero.1 hm
      exact .nested nofun
  | succ n ih =>
    have hle : tallest (n + 1) = tallest n + 4 + 7 * n := rfl
    refine ⟨?_, ?_, ?_⟩
    . have := ih.pos
      omega
    . intro m hm
      apply Gives.nested
      rintro m rfl
      exact (ih.assignmentRule (Nat.le_of_succ_le_succ hm)).mono fun e he => he
    . intro m hm jumps
      apply Gives.nested
      rintro m rfl
      refine (ih.statementRule (Nat.le_of_succ_le_succ hm) jumps).mono fun st hst => ?_
      omega

end Grammar

/-- A source text is accepted if it has tokens and they are a script. -/
theorem parse_eq_ok_iff {source : String} {stmts : List Stmt}
    : parse source = .ok stmts ↔
        ∃ tokens i, Token.scan source.toList = .ok tokens ∧
          (Grammar.script.run (.ofTokens tokens)).run 0 = .ok (stmts, i) := by
  have hparse : parse source = (Token.scan source.toList).bind fun tokens =>
      ((Grammar.script.run (.ofTokens tokens)).run 0).bind fun r => .ok r.1 := rfl
  rw [hparse]
  constructor
  . intro hok
    cases htokens : Token.scan source.toList with
    | error fault =>
      rw [htokens] at hok
      cases hok
    | ok tokens =>
      rw [htokens, Except.bind] at hok
      cases hrun : (Grammar.script.run (.ofTokens tokens)).run 0 with
      | error fault =>
        rw [hrun] at hok
        cases hok
      | ok r =>
        rw [hrun] at hok
        cases hok
        exact ⟨tokens, r.2, rfl, hrun⟩
  . rintro ⟨tokens, i, htokens, hrun⟩
    rw [htokens, Except.bind, hrun, Except.bind]

end ScriptHost
