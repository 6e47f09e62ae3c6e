import ScriptHost.Proofs.Counting.Covers
import ScriptHost.Proofs.Syntax.Sourced

/-!
This module contains that scripts are read with counters as they are without: no counter is ever out of its bounds,
nothing is taken from one that has too little, and there are not more rounds than tokens. Every production gives
back what it has taken from the counters if it has a result.
-/

namespace ScriptHost.Counting

/-- The productions of the grammar, with the type of what they give. -/
inductive Production : Type → Type
  | script : Production (List Stmt)
  | statement : Production Stmt
  | statementRule : Production Stmt
  | statements : Production (List Stmt)
  | braced : Production (List Stmt)
  | body : Production (List Stmt)
  | declaration (kind : DeclareKind) : Production Stmt
  | declarator (kind : DeclareKind) : Production Declarator
  | functionLiteral (named : Bool) : Production Function
  | parameters : Production (List String)
  | returnStatement (loc : Location) : Production Stmt
  | ifStatement (loc : Location) : Production Stmt
  | whileStatement (loc : Location) : Production Stmt
  | doStatement (loc : Location) : Production Stmt
  | forStatement (loc : Location) : Production Stmt
  | forInit : Production (Option Stmt)
  | optionalExpression (close : Symbol) : Production (Option Expr)
  | tryStatement (loc : Location) : Production Stmt
  | handlerParam : Production (Option String)
  | throwStatement (loc : Location) : Production Stmt
  | condition : Production Expr
  | expression : Production Expr
  | assignmentRule : Production Expr
  | arrowFunction : Production Expr
  | conditional : Production Expr
  | binary (levels : List Precedence) : Production Expr
  | unaryRule : Production Expr
  | updated : Production Expr
  | accessed : Production Expr
  | arguments : Production (List Expr)
  | primary : Production Expr
  | arrayLiteral : Production Expr
  | objectLiteral : Production Expr
  | property : Production Property

namespace Production

variable {α : Type}

/-- The reader of a production that counts. -/
def counted (fuel : Nat) : Production α → Reader α :=
  let calls := rules fuel fuel
  fun
  | .script => Counting.script fuel
  | .statement => Counting.nestedStatement calls
  | .statementRule => Counting.statementRule fuel calls
  | .statements => Counting.statements fuel calls
  | .braced => Counting.braced fuel calls
  | .body => Counting.body fuel calls
  | .declaration kind => Counting.declaration fuel calls kind
  | .declarator kind => Counting.declarator calls kind
  | .functionLiteral named => Counting.functionLiteral fuel calls named
  | .parameters => Counting.parameters fuel
  | .returnStatement loc => Counting.returnStatement calls loc
  | .ifStatement loc => Counting.ifStatement fuel calls loc
  | .whileStatement loc => Counting.whileStatement fuel calls loc
  | .doStatement loc => Counting.doStatement fuel calls loc
  | .forStatement loc => Counting.forStatement fuel calls loc
  | .forInit => Counting.forInit fuel calls
  | .optionalExpression close => Counting.optionalExpression calls close
  | .tryStatement loc => Counting.tryStatement fuel calls loc
  | .handlerParam => Counting.handlerParam
  | .throwStatement loc => Counting.throwStatement calls loc
  | .condition => Counting.condition calls
  | .expression => Counting.expression calls
  | .assignmentRule => Counting.assignmentRule fuel calls
  | .arrowFunction => Counting.arrowFunction fuel calls
  | .conditional => Counting.conditional fuel calls
  | .binary levels => Counting.binary fuel calls levels
  | .unaryRule => Counting.unaryRule fuel calls
  | .updated => Counting.updated fuel calls
  | .accessed => Counting.accessed fuel calls
  | .arguments => Counting.arguments fuel calls
  | .primary => Counting.primary fuel calls
  | .arrayLiteral => Counting.arrayLiteral fuel calls
  | .objectLiteral => Counting.objectLiteral fuel calls
  | .property => Counting.property calls

/-- The reader of a production in the grammar. -/
def reading (lower : Option Grammar) (jumps : Jumps) : Production α → Parser α
  | .script => Parser.many (do return !(← Parser.atEnd)) (Grammar.nestedStatement lower jumps)
  | .statement => Grammar.nestedStatement lower jumps
  | .statementRule => Grammar.statementRule lower jumps
  | .statements => Parser.many Grammar.inBlock (Grammar.nestedStatement lower jumps)
  | .braced => Grammar.braced lower jumps
  | .body => Grammar.body lower jumps
  | .declaration kind => Grammar.declaration lower kind
  | .declarator kind => Grammar.declarator lower kind
  | .functionLiteral named => Grammar.functionLiteral lower named
  | .parameters => Grammar.parameters
  | .returnStatement loc => Grammar.returnStatement lower loc
  | .ifStatement loc => Grammar.ifStatement lower jumps loc
  | .whileStatement loc => Grammar.whileStatement lower jumps loc
  | .doStatement loc => Grammar.doStatement lower jumps loc
  | .forStatement loc => Grammar.forStatement lower jumps loc
  | .forInit => Grammar.forInit lower
  | .optionalExpression close => Grammar.optionalExpression lower close
  | .tryStatement loc => Grammar.tryStatement lower jumps loc
  | .handlerParam => Grammar.handlerParam
  | .throwStatement loc => Grammar.throwStatement lower loc
  | .condition => Grammar.condition lower
  | .expression => Grammar.expression lower
  | .assignmentRule => Grammar.assignmentRule lower
  | .arrowFunction => Grammar.arrowFunction lower
  | .conditional => Grammar.conditional lower
  | .binary levels => Grammar.binary lower levels
  | .unaryRule => Grammar.unaryRule lower
  | .updated => Grammar.updated lower
  | .accessed => do Grammar.accesses lower (← Grammar.primary lower)
  | .arguments => Parser.listUntil .rightParen (Grammar.expression lower)
  | .primary => Grammar.primary lower
  | .arrayLiteral => Grammar.arrayLiteral lower
  | .objectLiteral => Grammar.objectLiteral lower
  | .property => Grammar.property lower

/-- The number of tokens that a production takes at least. -/
def least : Production α → Nat
  | .script | .statements | .parameters | .arguments => 0
  | .returnStatement _ | .forInit | .optionalExpression _ | .handlerParam => 0
  | _ => 1

/-- How a production ends that begins with the counters `c`. -/
structure Restores (p : Production α) (s : TokenStream) (c : Counters) (result : Except SyntaxError α) (c' : Counters)
    : Prop where
  within : c'.Within s
  loops_eq : c'.loops = c.loops
  functions_eq : c'.functions = c.functions
  /-- Chains that are open where a reader fails keep their levels. -/
  nesting_le : c.nesting ≤ c'.nesting
  nesting_eq : ∀ a, result = .ok a → c'.nesting = c.nesting
  least_le : ∀ a, result = .ok a → c.position + p.least ≤ c'.position
  reading_eq : (p.reading (Grammar.ofLevels (Grammar.maxNesting - c.nesting)) c.jumps).at s c.position =
    result.map fun a => (a, c'.position)

instance (p : Production α) (n : Nat) (jumps : Jumps) : Takes p.least (p.reading (Grammar.ofLevels n) jumps) := by
  cases p <;> dsimp only [least, reading] <;> infer_instance

variable {s : TokenStream} [s.Ended] {fuel : Nat} [henough : Enough s fuel]

instance (p : Production α) (n : Nat) (jumps : Jumps)
    : Agrees s n 0 jumps (p.counted fuel) (p.reading (Grammar.ofLevels n) jumps) := by
  refine .of_le fun hn => ?_
  have : Covers s n (rules fuel fuel) := covers_rules (Nat.le_trans hn (Nat.le_of_lt henough.maxNesting_lt))
  cases p with
  | script => exact inferInstanceAs (Agrees s n 0 jumps (Reader.many fuel _ _) (Parser.many _ _))
  | _ =>
    dsimp only [counted, reading]
    infer_instance

theorem counted_restores (p : Production α) {c : Counters} (hc : c.Within s)
    : ∃ result c', p.counted fuel s c = .ok (result, c') ∧ p.Restores s c result c' := by
  let y := p.reading (Grammar.ofLevels (Grammar.maxNesting - c.nesting)) c.jumps
  have hagrees : AgreesAt s c 0 (p.counted fuel) y :=
    Agrees.agrees ⟨hc.position_lt, Nat.add_sub_cancel' hc.nesting_le, Nat.zero_le _, rfl⟩
  have htakes : Advances s c.position p.least y := Takes.advances
  unfold AgreesAt at hagrees
  unfold Advances at htakes
  generalize hcounted : p.counted fuel s c = counted at hagrees
  generalize hreading : y.at s c.position = reading at hagrees htakes
  cases hagrees with
  | @ok a j hj =>
    refine ⟨_, _, rfl, ⟨hj, hc.nesting_le⟩, rfl, rfl, Nat.le_refl _, fun _ _ => rfl, fun _ _ => ?_, hreading⟩
    exact htakes a j rfl
  | error hwithin hnesting hloops hfunctions =>
    exact ⟨_, _, rfl, hwithin, hloops, hfunctions, hnesting, nofun, nofun, hreading⟩

end Production

/--
A script is read with counters as it is without. Wherever a production begins in it, it ends without a mishap and
gives back what it has taken from the counters.
-/
theorem parse_restores (source : String) {fuel : Nat} (hfuel : source.length + Grammar.maxNesting < fuel)
    : (∃ c, parse fuel source = .ok (ScriptHost.parse source, c)) ∧
      ∀ tokens, Token.scan source.toList = .ok tokens →
        ∀ {α : Type} (p : Production α) (c : Counters), c.Within (.ofTokens tokens) →
          ∃ result c', p.counted fuel (.ofTokens tokens) c = .ok (result, c') ∧
            p.Restores (.ofTokens tokens) c result c' := by
  have henough : ∀ {tokens}, Token.scan source.toList = .ok tokens → Enough (.ofTokens tokens) fuel := by
    intro tokens htokens
    have hsize := Token.size_le_of_scan htokens
    rw [String.length_toList] at hsize
    exact ⟨Nat.lt_of_le_of_lt hsize (Nat.lt_of_le_of_lt (Nat.add_le_add_left (by decide) _) hfuel), by omega⟩
  constructor
  . have hparse : ScriptHost.parse source = (Token.scan source.toList).bind fun tokens =>
        (Grammar.script.at (.ofTokens tokens) 0).bind fun r => .ok r.1 := rfl
    rw [hparse]
    unfold parse
    cases htokens : Token.scan source.toList with
    | error e => exact ⟨{}, rfl⟩
    | ok tokens =>
      have hdivides := Token.divides_of_scan htokens
      have := hdivides.ended
      have := henough htokens
      have hbegin : ({} : Counters).Within (.ofTokens tokens) := ⟨hdivides.size_pos, Nat.zero_le _⟩
      obtain ⟨result, c, hcounted, hrestores⟩ :
        ∃ result c, script fuel (.ofTokens tokens) {} = .ok (result, c) ∧
          Production.script.Restores (.ofTokens tokens) {} result c := Production.script.counted_restores hbegin
      have hscript : Grammar.script.at (.ofTokens tokens) 0 = result.map fun stmts => (stmts, c.position) :=
        hrestores.reading_eq
      refine ⟨c, ?_⟩
      dsimp only [Except.bind]
      rw [hscript]
      exact hcounted.trans (by cases result <;> rfl)
  . intro tokens htokens α p c hc
    have := (Token.divides_of_scan htokens).ended
    have := henough htokens
    exact p.counted_restores hc

/-- The chain is open where the parenthesis is missing, and its level is not given back. -/
theorem parse_restores_open_chain
    : "a + (b".length + Grammar.maxNesting < 1010 ∧
      (∃ e c, parse 1010 "a + (b" = .ok (.error e, c) ∧ c.nesting = 1 ∧ ScriptHost.parse "a + (b" = .error e) ∧
      ∃ tokens, Token.scan "a + (b".toList = .ok tokens ∧ ∃ result c,
        Production.statement.counted 1010 (.ofTokens tokens) {} = .ok (result, c) ∧
          Production.statement.Restores (.ofTokens tokens) {} result c := by
  have hfuel : "a + (b".length + Grammar.maxNesting < 1010 := by decide
  have hrun : (parse 1010 "a + (b").toOption.map (fun r => (r.1.isOk, r.2.nesting)) = some (false, 1) := by
    decide +kernel
  have hscan : (Token.scan "a + (b".toList).isOk = true := by decide +kernel
  obtain ⟨⟨c, hparse⟩, hproductions⟩ := parse_restores "a + (b" hfuel
  refine ⟨hfuel, ?_, ?_⟩
  . rw [hparse] at hrun
    cases herror : ScriptHost.parse "a + (b" with
    | ok stmts =>
      rw [herror] at hrun
      cases hrun
    | error e =>
      rw [herror] at hparse hrun
      have hnesting : (false, c.nesting) = (false, 1) := Option.some.inj hrun
      exact ⟨e, c, hparse, congrArg Prod.snd hnesting, rfl⟩
  . cases htokens : Token.scan "a + (b".toList with
    | error e =>
      rw [htokens] at hscan
      cases hscan
    | ok tokens =>
      refine ⟨tokens, rfl, hproductions tokens htokens .statement {} ⟨?_, Nat.zero_le _⟩⟩
      exact (Token.divides_of_scan htokens).size_pos

end ScriptHost.Counting
