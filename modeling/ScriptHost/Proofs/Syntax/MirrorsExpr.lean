import ScriptHost.Proofs.Syntax.Heads

/-!
This module contains that the rules for expressions have the same results on a stretch of tokens in two scripts.
-/

namespace ScriptHost

open Grammar

namespace Window

variable {w : Window} {stop k n n' : Nat}

abbrev MovesExpr (w : Window) : Expr → Expr → Prop :=
  Expr.Moved w.origin.offset w.goal.offset

abbrev MovesStmt (w : Window) : Stmt → Stmt → Prop :=
  Stmt.Moved w.origin.offset w.goal.offset

abbrev MovesFunction (w : Window) : Function → Function → Prop :=
  Function.Moved w.origin.offset w.goal.offset

/--
A reader behind an expression: it may take nothing, and does so in front of a closing parenthesis, which is
what follows the stretch in the target.
-/
theorem Mirrors.tail {e e' : Expr} {x y : Parser Expr} (he : w.MovesExpr e e')
    (hidle : Idles w.source (w.start + k) e x)
    (hstop : ∀ i, (w.target.get i).kind = .symbol .rightParen → y.at w.target i = .ok (e', i))
    (hx : k < w.width → w.Mirrors (w.width + 1) k x y w.MovesExpr)
    : w.Mirrors (w.width + 1) k x y w.MovesExpr := by
  by_cases hk : k < w.width
  . exact hx hk
  . intro a k' hok hk'
    rcases hidle with hidle | hadvances
    . obtain ⟨rfl, hkeq⟩ : e = a ∧ w.start + k = w.start + k' := by simpa using hidle.symm.trans hok
      obtain ⟨rfl, rfl⟩ : k = w.width ∧ k' = w.width := by omega
      exact .inl ⟨e', hstop _ w.closed, he⟩
    . have := hadvances a _ hok
      omega

/-- An expression with such a reader behind it. -/
theorem Mirrors.bind_tail (m : Nat) {x y : Parser Expr} {f g : Expr → Parser Expr} [hm : Takes m x]
    (hx : w.Mirrors (w.width + 1) k x y w.MovesExpr) (hidle : ∀ e s i, Idles s i e (f e))
    (hstop : ∀ e i, (w.target.get i).kind = .symbol .rightParen → (g e).at w.target i = .ok (e, i))
    (hf : ∀ e e' k', w.MovesExpr e e' → k + m ≤ k' → k' < w.width →
      w.Mirrors (w.width + 1) k' (f e) (g e') w.MovesExpr)
    : w.Mirrors (w.width + 1) k (x >>= f) (y >>= g) w.MovesExpr := by
  have := fun e => Takes.of_idles (hidle e)
  exact .bind m 0 hx fun e e' i he hi _ => .tail he (hidle e _ _) (hstop e') (hf e e' i he hi)

/-- The rules that run with `n` levels of nesting left have the same results in the target. -/
structure MirrorsAt (w : Window) (n : Nat) : Prop where
  expression : ∀ n' k, w.Mirrors (w.width + 1) k (expression (ofLevels n)) (expression (ofLevels n')) w.MovesExpr
  nestedStatement : ∀ n' k jumps, w.Mirrors w.width k (nestedStatement (ofLevels n) jumps) (nestedStatement (ofLevels n') jumps) w.MovesStmt
  unary : ∀ n' k, w.Mirrors (w.width + 1) k (nested (ofLevels n) fun g => g.unary) (nested (ofLevels n') fun g => g.unary) w.MovesExpr
  operand : ∀ n' k level tighter op loc loc' left left', PlainLevel level → (∀ level ∈ tighter, PlainLevel level) → w.Moves loc loc' → w.MovesExpr left left' →
    w.Mirrors (w.width + 1) k (nested (ofLevels n) fun g => g.operand level tighter op loc left)
      (nested (ofLevels n') fun g => g.operand level tighter op loc' left') w.MovesExpr
  access : ∀ n' k object object', w.MovesExpr object object' → (w.source.get (w.start + k)).kind ≠ .endOfInput →
    w.Mirrors (w.width + 1) k (nested (ofLevels n) fun g => g.access object) (nested (ofLevels n') fun g => g.access object') w.MovesExpr

namespace MirrorsAt

theorem inBlock (hk : k < w.width) : w.Mirrors stop k inBlock inBlock Eq := by
  unfold Grammar.inBlock
  refine .checkSymbol hk fun found => .ite Iff.rfl (fun _ => .pure rfl) fun _ => ?_
  exact .atEnd hk fun atEnd => .pure rfl

theorem parameters_go {fuel fuel' : Nat} (hfuel : w.width < k + fuel) (hfuel' : w.width < k + fuel')
    (params : List String)
    : w.Mirrors w.width k (parameters.go fuel params) (parameters.go fuel' params) Eq := by
  induction fuel generalizing fuel' k params with
  | zero =>
    have := Takes.parameters_go 0 params
    exact .of_lt 0 fun hk => by omega
  | succ fuel ih =>
    have := Takes.parameters_go (fuel + 1) params
    refine .of_lt 0 fun hk => ?_
    obtain ⟨fuel', rfl⟩ : ∃ n, fuel' = n + 1 := ⟨fuel' - 1, by omega⟩
    have := Takes.parameters_go fuel
    unfold parameters.go
    refine .location hk fun loc loc' _ => .name hk fun param => .ite Iff.rfl (fun _ => .fail_bind) fun _ => ?_
    refine .of_lt 0 fun hk' => ?_
    exact .ifSymbol (by omega) (ih (by omega) (by omega) _) (.pure rfl)

theorem parameters : w.Mirrors w.width k parameters parameters Eq := by
  refine .of_lt 0 fun hk => ?_
  unfold Grammar.parameters
  refine .checkSymbol hk fun found => .ite Iff.rfl (fun _ => .pure rfl) fun _ => ?_
  refine .remaining (Nat.le_of_lt hk) fun fuel fuel' hfuel hfuel' => ?_
  exact parameters_go hfuel hfuel' _

theorem literal?_moved (kind : TokenKind) {loc loc' : Location} (hloc : w.Moves loc loc')
    : Option.Rel w.MovesExpr (literal? ⟨kind, loc⟩) (literal? ⟨kind, loc'⟩) := by
  unfold literal?
  dsimp only
  split <;> first | exact .none | exact .some ⟨rfl, .cons hloc .nil⟩

theorem callLocation_moved {object object' : Expr} (hobject : w.MovesExpr object object') {loc loc' : Location}
    (hloc : w.Moves loc loc')
    : w.Moves (callLocation object loc) (callLocation object' loc') := by
  unfold callLocation
  rw [hobject.isAssignable]
  split
  . exact hobject.loc
  . exact hloc

theorem propertyKey (hk : k < w.width) : w.Mirrors stop k propertyKey propertyKey Eq := by
  unfold Grammar.propertyKey
  refine .peek hk fun kind loc loc' hkind _ => ?_
  have hname : ∀ alone : Bool, w.Mirrors stop k (do return (← Parser.propertyName, alone)) (do return (← Parser.propertyName, alone)) Eq :=
    fun alone => .propertyName hk fun text => .pure rfl
  dsimp only
  split
  . exact .advance hk (by simp [hkind]) (.pure rfl)
  . exact .advance hk (by simp [hkind]) (.pure rfl)
  . exact hname true
  . exact hname false

variable (h : w.MirrorsAt n)
include h

/-- An expression that does not reach the end. -/
theorem innerExpression (hstop : stop ≤ w.width + 1)
    : w.Mirrors stop k (Grammar.expression (ofLevels n)) (Grammar.expression (ofLevels n')) w.MovesExpr :=
  (h.expression n' k).mono hstop fun _ _ => id

theorem braced (jumps : Jumps)
    : w.Mirrors (w.width + 1) k (braced (ofLevels n) jumps) (braced (ofLevels n') jumps) (List.Forall₂ w.MovesStmt) := by
  refine .of_lt 1 fun hk => ?_
  unfold Grammar.braced
  refine .expectSymbol (by omega) ?_
  refine .bind 0 1 (.many (fun k => h.nestedStatement n' k jumps) fun k hk => inBlock hk) fun stmts stmts' i hstmts _ hi => ?_
  exact .expectSymbol (by omega) (.pure hstmts)

theorem functionLiteral {named named' : Bool} (hnamed : named' = named ∨ named' = false)
    : w.Mirrors (w.width + 1) k (functionLiteral (ofLevels n) named) (functionLiteral (ofLevels n') named')
        w.MovesFunction := by
  have hrest : ∀ (name : Option String) {start start' : Location} (k : Nat), w.Moves start start' →
      w.Mirrors (w.width + 1) k
        (do
          Parser.expectSymbol .leftParen
          let params ← Grammar.parameters
          Parser.expectSymbol .rightParen
          let body ← Grammar.braced (ofLevels n) { inFunction := true }
          return ⟨name, params, .block body, start.through (← Parser.previous).loc⟩ : Parser Function)
        (do
          Parser.expectSymbol .leftParen
          let params ← Grammar.parameters
          Parser.expectSymbol .rightParen
          let body ← Grammar.braced (ofLevels n') { inFunction := true }
          return ⟨name, params, .block body, start'.through (← Parser.previous).loc⟩ : Parser Function)
        w.MovesFunction := by
    intro name start start' k hstart
    refine .of_lt 1 fun hk => .expectSymbol (by omega) ?_
    refine .bind 0 1 parameters fun params params' i heq _ hi => ?_
    subst heq
    refine .expectSymbol (by omega) (.bind 1 0 (h.braced _) fun stmts stmts' j hstmts _ hj => ?_)
    refine .previous (by omega) (by omega) fun last last' hlast => .pure ?_
    obtain ⟨hunplaced, hlocations⟩ := Stmt.moved_all hstmts
    exact ⟨by simp only [Function.unplaced, FunctionBody.unplaced, hunplaced],
      .cons (hstart.through hlast) hlocations⟩
  refine .of_lt 1 fun hk => ?_
  unfold Grammar.functionLiteral
  refine .location (by omega) fun start start' hstart => .expectKeyword (by omega) ?_
  refine @Mirrors.of_lt _ _ _ _ _ _ _ _ 1 (.after fun token => by split <;> infer_instance) fun hk' => ?_
  refine .peek (by omega) fun kind loc loc' hkind _ => ?_
  have hname : ∀ {F G : Option String → Parser Function},
      (∀ text, w.Mirrors (w.width + 1) (k + 1 + 1) (F (some text)) (G (some text)) w.MovesFunction) →
      w.Mirrors (w.width + 1) (k + 1) ((some <$> Parser.name) >>= F) ((some <$> Parser.name) >>= G)
        w.MovesFunction := by
    intro F G hF
    rw [bind_map_left, bind_map_left]
    exact .name (by omega) hF
  dsimp only
  by_cases hsome : ∃ text, kind = .name text
  . obtain ⟨text, rfl⟩ := hsome
    cases named <;> cases named' <;> exact hname fun text => hrest (some text) _ hstart
  . cases named with
    | true =>
      dsimp only
      rw [bind_map_left]
      exact .of_error (Parser.name_at_other fun text heq => hsome ⟨text, hkind.symm.trans heq⟩)
    | false =>
      obtain rfl : named' = false := by simpa using hnamed
      have hnone := hrest none (k + 1) hstart
      cases kind with
      | name text => exact absurd ⟨text, rfl⟩ hsome
      | _ => exact hnone

theorem property : w.Mirrors w.width k (property (ofLevels n)) (property (ofLevels n')) (Property.Moved w.origin.offset w.goal.offset) := by
  refine .of_lt 1 fun hk => ?_
  unfold Grammar.property
  refine .location (by omega) fun loc loc' hloc => .bind 1 0 (propertyKey (by omega)) fun key key' i heq hi hlt => ?_
  subst heq
  obtain ⟨key, alone⟩ := key
  refine .ifSymbol (by omega) ?_ (.checkSymbol (by omega) fun comma => .checkSymbol (by omega) fun brace => ?_)
  . refine .bind 1 0 (h.innerExpression (by omega)) fun e e' j he _ _ => .pure ?_
    exact ⟨rfl, he⟩
  . exact .ite Iff.rfl (fun _ => .pure ⟨rfl, rfl, .cons hloc .nil⟩) fun _ => .unexpected

theorem arrayLiteral : w.Mirrors (w.width + 1) k (arrayLiteral (ofLevels n)) (arrayLiteral (ofLevels n')) w.MovesExpr := by
  refine .of_lt 1 fun hk => ?_
  unfold Grammar.arrayLiteral
  refine .location (by omega) fun start start' hstart => .expectSymbol (by omega) ?_
  refine .bind 0 1 (.listUntil fun k => h.innerExpression (by omega)) fun es es' i hes _ hi => ?_
  refine .expectSymbol (by omega) (.previous (by omega) (by omega) fun last last' hlast => .pure ?_)
  obtain ⟨hunplaced, hlocations⟩ := Expr.moved_all hes
  exact ⟨by simp only [Expr.unplaced, hunplaced], .cons (hstart.through hlast) hlocations⟩


theorem objectLiteral
    : w.Mirrors (w.width + 1) k (objectLiteral (ofLevels n)) (objectLiteral (ofLevels n')) w.MovesExpr := by
  refine .of_lt 1 fun hk => ?_
  unfold Grammar.objectLiteral
  refine .location (by omega) fun start start' hstart => .expectSymbol (by omega) ?_
  refine .bind 0 1 (.listUntil fun k => h.property) fun ps ps' i hps _ hi => ?_
  refine .expectSymbol (by omega) (.previous (by omega) (by omega) fun last last' hlast => .pure ?_)
  obtain ⟨hunplaced, hlocations⟩ := Property.moved_all hps
  exact ⟨by simp only [Expr.unplaced, hunplaced], .cons (hstart.through hlast) hlocations⟩

theorem primary : w.Mirrors (w.width + 1) k (primary (ofLevels n)) (primary (ofLevels n')) w.MovesExpr := by
  refine .of_lt 1 fun hk => ?_
  unfold Grammar.primary
  refine .peek (by omega) fun kind loc loc' hkind hloc => ?_
  have hliteral := literal?_moved kind hloc
  generalize hsource : literal? ⟨kind, loc⟩ = e? at hliteral
  generalize literal? ⟨kind, loc'⟩ = e?' at hliteral
  cases hliteral with
  | @some e e' he =>
    have hne := Takes.kind_of_literal? hsource
    exact .advance (by omega) (by rwa [hkind]) (.pure he)
  | none =>
    dsimp only
    split
    . exact .bind 1 0 (h.functionLiteral (.inl rfl)) fun f f' i hf _ _ => .pure ⟨congrArg Expr.function hf.unplaced, hf.locations⟩
    . exact h.arrayLiteral
    . exact h.objectLiteral
    . refine .advance (by omega) (by simp [hkind]) (.bind 1 1 (h.innerExpression (by omega)) fun e e' i he _ hi => ?_)
      exact .expectSymbol (by omega) (.pure he)
    . exact .unexpected

theorem accesses {object object' : Expr} (hobject : w.MovesExpr object object')
    : w.Mirrors (w.width + 1) k (accesses (ofLevels n) object) (accesses (ofLevels n') object')
        w.MovesExpr := by
  unfold Grammar.accesses
  refine .tail hobject (.look Parser.peek_at ?_) (fun i hi => ?_)
    fun hk => .peek hk fun kind loc loc' hkind _ => ?_
  . split <;> first | exact .of_takes | exact .pure
  . rw [Parser.bind_at, Parser.peek_at]
    simp only [Except.bind, hi]
    rfl
  . dsimp only
    split
    . exact h.access n' k _ _ hobject (by simp [hkind])
    . exact h.access n' k _ _ hobject (by simp [hkind])
    . exact h.access n' k _ _ hobject (by simp [hkind])
    . exact .pure hobject

theorem accessRule {object object' : Expr} (hobject : w.MovesExpr object object')
    (hkind : (w.source.get (w.start + k)).kind ≠ .endOfInput)
    : w.Mirrors (w.width + 1) k (accessRule (ofLevels n) object) (accessRule (ofLevels n') object')
        w.MovesExpr := by
  refine .of_lt 1 fun hk => ?_
  unfold Grammar.accessRule
  refine .peek (by omega) fun kind loc loc' _ hloc => .advance (by omega) hkind ?_
  dsimp only
  split
  . refine .bind 0 1 (.listUntil fun k => h.innerExpression (by omega))
      fun args args' i hargs _ hi => .expectSymbol (by omega) (h.accesses ?_)
    obtain ⟨hunplaced, hlocations⟩ := Expr.moved_all hargs
    exact ⟨by simp only [Expr.unplaced, hobject.unplaced, hunplaced],
      .cons (callLocation_moved hobject hloc) (List.rel_append hobject.locations hlocations)⟩
  . refine .of_lt 1 fun hk' => .location (by omega) fun name name' hname => .propertyName (by omega) fun text =>
      h.accesses ?_
    exact ⟨by simp only [Expr.unplaced, hobject.unplaced], .cons hname hobject.locations⟩
  . refine .bind 1 1 (h.innerExpression (by omega)) fun e e' i he _ hi => ?_
    refine .expectSymbol (by omega) (.previous (by omega) (by omega) fun last last' hlast => h.accesses ?_)
    exact ⟨by simp only [Expr.unplaced, hobject.unplaced, he.unplaced],
      .cons (hloc.through hlast) (List.rel_append hobject.locations he.locations)⟩

theorem updated : w.Mirrors (w.width + 1) k (updated (ofLevels n)) (updated (ofLevels n')) w.MovesExpr := by
  unfold Grammar.updated
  rw [← bind_assoc, ← bind_assoc]
  refine .bind_tail 1 (.bind 1 0 h.primary fun e e' i he _ _ => h.accesses he) (fun e s i => ?_)
    (fun e i hi => ?_) fun e e' i he _ hi => ?_
  . refine .look Parser.lineBreakBefore_at (.ite .pure (.look Parser.peek_at ?_))
    dsimp only
    split
    . exact .pure
    . next op hop =>
      refine .of_advances (.ite (.advance fun hkind => ?_) .fail_bind)
      rw [hkind] at hop
      cases hop
  . rw [Parser.bind_at, Parser.lineBreakBefore_at]
    dsimp only [Except.bind]
    split
    . rfl
    . rw [Parser.bind_at, Parser.peek_at]
      simp only [Except.bind, hi]
      rfl
  . refine .lineBreakBefore hi (by omega) fun newline => .ite Iff.rfl (fun _ => .pure he) fun _ => ?_
    refine .peek hi fun kind loc loc' hkind hloc => ?_
    dsimp only
    split
    . exact .pure he
    . next op hop =>
      refine .ite (by rw [he.isAssignable]) (fun _ => .advance hi ?_ (.pure ?_)) fun _ => .fail_bind
      . intro hend
        rw [← hkind, hend] at hop
        cases hop
      . exact ⟨by simp only [Expr.unplaced, he.unplaced], .cons hloc he.locations⟩

theorem unaryRule : w.Mirrors (w.width + 1) k (unaryRule (ofLevels n)) (unaryRule (ofLevels n')) w.MovesExpr := by
  refine .of_lt 1 fun hk => ?_
  unfold Grammar.unaryRule
  refine .peek (by omega) fun kind loc loc' hkind hloc => ?_
  dsimp only
  split
  . exact h.updated
  . next op hop =>
    refine .advance (by omega) ?_ (.bind 1 0 (h.unary n' _) fun e e' i he _ _ => ?_)
    . intro hend
      rw [← hkind, hend] at hop
      cases hop
    . rw [he.isAssignable]
      refine .ite Iff.rfl (fun _ => .fail_bind) fun _ => .pure ?_
      exact ⟨by simp only [Expr.unplaced, he.unplaced], .cons hloc he.locations⟩

theorem operators {level : Precedence} {tighter : List Precedence} (hlevel : PlainLevel level)
    (htighter : ∀ level ∈ tighter, PlainLevel level) {left left' : Expr} (hleft : w.MovesExpr left left')
    : w.Mirrors (w.width + 1) k (operators (ofLevels n) level tighter left)
        (operators (ofLevels n') level tighter left') w.MovesExpr := by
  unfold Grammar.operators
  refine .tail hleft (.look Parser.peek_at ?_) (fun i hi => ?_) fun hk =>
    .peek hk fun kind loc loc' hkind hloc => ?_
  . split <;> first | exact .of_takes | exact .pure
  . rw [Parser.bind_at, Parser.peek_at]
    simp only [Except.bind, hi, hlevel.rightParen]
    rfl
  . dsimp only
    split
    . exact .pure hleft
    . next op hop =>
      refine .advance hk ?_ (h.operand n' _ level tighter op _ _ _ _ hlevel htighter hloc hleft)
      intro hend
      rw [← hkind, hend] at hop
      cases hop

theorem binary {levels : List Precedence} (hlevels : ∀ level ∈ levels, PlainLevel level)
    : w.Mirrors (w.width + 1) k (binary (ofLevels n) levels) (binary (ofLevels n') levels) w.MovesExpr := by
  induction levels with
  | nil => exact h.unaryRule
  | cons level tighter ih =>
    obtain ⟨hlevel, htighter⟩ := List.forall_mem_cons.1 hlevels
    exact .bind 1 0 (ih htighter) fun left left' i hleft _ _ => h.operators hlevel htighter hleft

theorem operandRule {level : Precedence} {tighter : List Precedence} (hlevel : PlainLevel level)
    (htighter : ∀ level ∈ tighter, PlainLevel level) {op : BinaryOp} {loc loc' : Location} {left left' : Expr}
    (hloc : w.Moves loc loc') (hleft : w.MovesExpr left left')
    : w.Mirrors (w.width + 1) k (operandRule (ofLevels n) level tighter op loc left)
        (operandRule (ofLevels n') level tighter op loc' left') w.MovesExpr := by
  refine .bind 1 0 (h.binary htighter) fun right right' i hright _ _ => h.operators hlevel htighter ?_
  exact ⟨by simp only [Expr.unplaced, hleft.unplaced, hright.unplaced],
    .cons hloc (List.rel_append hleft.locations hright.locations)⟩

theorem conditional : w.Mirrors (w.width + 1) k (conditional (ofLevels n)) (conditional (ofLevels n')) w.MovesExpr := by
  refine .bind_tail 1 (h.binary plain_precedences) (fun e s i => .look Parser.location_at (.accept .pure))
    (fun e i hi => ?_) fun e e' i he _ hi => .location hi fun loc loc' hloc => .ifSymbol hi ?_ (.pure he)
  . rw [Parser.bind_at, Parser.location_at]
    dsimp only [Except.bind]
    rw [Parser.bind_at, Parser.acceptSymbol_at, hi]
    rfl
  . refine .bind 1 1 (h.innerExpression (by omega)) fun yes yes' j hyes _ hj => ?_
    refine .expectSymbol (by omega) (.bind 1 0 (h.expression n' _) fun no no' _ hno _ _ => .pure ?_)
    exact ⟨by simp only [Expr.unplaced, he.unplaced, hyes.unplaced, hno.unplaced],
      .cons hloc (List.rel_append (List.rel_append he.locations hyes.locations) hno.locations)⟩

theorem arrowFunction
    : w.Mirrors (w.width + 1) k (arrowFunction (ofLevels n)) (arrowFunction (ofLevels n')) w.MovesExpr := by
  refine .of_lt 1 fun hk => ?_
  unfold Grammar.arrowFunction
  dsimp only
  refine .location (by omega) fun start start' hstart => ?_
  have hrest : ∀ params i, w.Mirrors (w.width + 1) i
      (do
        Parser.expectSymbol .arrow
        let body ← if ← Parser.checkSymbol .leftBrace then
            FunctionBody.block <$> Grammar.braced (ofLevels n) { inFunction := true }
          else
            FunctionBody.expr <$> Grammar.expression (ofLevels n)
        return .function ⟨none, params, body, start.through (← Parser.previous).loc⟩)
      (do
        Parser.expectSymbol .arrow
        let body ← if ← Parser.checkSymbol .leftBrace then
            FunctionBody.block <$> Grammar.braced (ofLevels n') { inFunction := true }
          else
            FunctionBody.expr <$> Grammar.expression (ofLevels n')
        return .function ⟨none, params, body, start'.through (← Parser.previous).loc⟩) w.MovesExpr := by
    intro params i
    refine .of_lt 1 fun hi => .expectSymbol (by omega) (.of_lt 1 fun hi' => ?_)
    refine .checkSymbol (by omega) fun found => .ite Iff.rfl (fun _ => ?_) fun _ => ?_
    . rw [bind_map_left, bind_map_left]
      refine .bind 1 0 (h.braced _) fun stmts stmts' j hstmts _ _ =>
        .previous (by omega) (by omega) fun last last' hlast => .pure ?_
      obtain ⟨hunplaced, hlocations⟩ := Stmt.moved_all hstmts
      exact ⟨by simp only [Expr.unplaced, Function.unplaced, FunctionBody.unplaced, hunplaced],
        .cons (hstart.through hlast) hlocations⟩
    . rw [bind_map_left, bind_map_left]
      refine .bind 1 0 (h.expression n' _) fun e e' j he _ _ =>
        .previous (by omega) (by omega) fun last last' hlast => .pure ?_
      exact ⟨by simp only [Expr.unplaced, Function.unplaced, FunctionBody.unplaced, he.unplaced],
        .cons (hstart.through hlast) he.locations⟩
  refine .ifSymbol (by omega) ?_ ?_
  . refine .bind 0 1 parameters fun params params' i heq _ hi => ?_
    subst heq
    exact .expectSymbol (by omega) (hrest params _)
  . exact .name (by omega) fun text => hrest [text] _

theorem assignmentRule
    : w.Mirrors (w.width + 1) k (assignmentRule (ofLevels n)) (assignmentRule (ofLevels n')) w.MovesExpr := by
  refine .of_lt 1 fun hk a k' hok hk' => ?_
  have harrow := w.startsArrow_eq (by omega) hok (by omega)
  refine Mirrors.step Parser.atArrowFunction_at Parser.atArrowFunction_at ?_ a k' hok hk'
  refine .ite (by rw [harrow]) (fun _ => h.arrowFunction) fun _ => ?_
  refine .bind_tail 1 h.conditional (fun e s i => .look Parser.peek_at ?_) (fun e i hi => ?_)
    fun target target' i htarget _ hi => .peek hi fun kind loc loc' hkind hloc => ?_
  . dsimp only
    split
    . exact .pure
    . next op hop =>
      refine .of_advances (.ite (@Advances.advance _ _ _ _ ?_ fun hkind => ?_) .fail_bind)
      . refine .after fun value => ?_
        split <;> infer_instance
      . rw [hkind] at hop
        cases hop
  . rw [Parser.bind_at, Parser.peek_at]
    simp only [Except.bind, hi]
    rfl
  . dsimp only
    split
    . exact .pure htarget
    . next op hop =>
      refine .ite (by rw [htarget.isAssignable]) (fun _ => .advance hi ?_ ?_) fun _ => .fail_bind
      . intro hend
        rw [← hkind, hend] at hop
        cases hop
      . refine .bind_of 1 0 (fun value => ?_) (h.expression n' _) fun value value' _ hvalue _ _ => ?_
        . split <;> infer_instance
        . split
          . exact .pure ⟨by simp only [Expr.unplaced, htarget.unplaced, hvalue.unplaced],
              .cons hloc (List.rel_append htarget.locations hvalue.locations)⟩
          . exact .pure ⟨by simp only [Expr.unplaced, htarget.unplaced, hvalue.unplaced],
              .cons hloc (List.rel_append htarget.locations hvalue.locations)⟩

end MirrorsAt
end Window
end ScriptHost
