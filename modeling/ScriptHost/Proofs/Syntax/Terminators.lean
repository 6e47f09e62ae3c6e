import ScriptHost.Proofs.Syntax.Heads

/-!
This module contains the grammar with another reader in place of the end of a statement, and where a script
leaves semicolons out: at the positions where it is rejected as soon as a semicolon is demanded there.
-/

namespace ScriptHost

/-- The end of a statement, where the semicolon must not be missing at some positions. -/
def Parser.demand (due : Nat → Bool) : Parser Unit := do
  if due (← get) then expectSymbol .semicolon else semicolon

/-- The semicolon is missing at a position where it may be. -/
def TokenStream.Missing (s : TokenStream) (i : Nat) : Prop :=
  (s.get i).kind ≠ .symbol .semicolon ∧
    ((s.get i).kind = .symbol .rightBrace ∨ (s.get i).kind = .endOfInput ∨
      0 < i ∧ (s.get (i - 1)).loc.line < (s.get i).loc.line)

namespace Grammar

section

variable (terminator : Parser Unit) (lower : Option Grammar)

def returnStatementWith (loc : Location) : Parser Stmt := do
  let bare := (← Parser.checkSymbol .semicolon) || (← Parser.checkSymbol .rightBrace)
    || (← Parser.atEnd) || (← Parser.lineBreakBefore)
  let value ← if bare then pure none else some <$> expression lower
  terminator
  return .return value loc

def throwStatementWith (loc : Location) : Parser Stmt := do
  if ← Parser.lineBreakBefore then
    Parser.fail .newlineAfterThrow loc
  let value ← expression lower
  terminator
  return .throw value loc

def statementRuleWith (jumps : Jumps) : Parser Stmt := do
  let ⟨kind, loc⟩ ← Parser.peek
  match kind with
  | .keyword .var | .keyword .let | .keyword .const =>
    let declared ← declaration lower ((declareKind? kind).getD .var)
    terminator
    return declared
  | .keyword .function => return .function (← functionLiteral lower true)
  | .keyword .return =>
    unless jumps.inFunction do
      Parser.fail .illegalReturn loc
    Parser.advance
    returnStatementWith terminator lower loc
  | .keyword .if =>
    Parser.advance
    ifStatement lower jumps loc
  | .keyword .while =>
    Parser.advance
    whileStatement lower jumps loc
  | .keyword .do =>
    Parser.advance
    doStatement lower jumps loc
  | .keyword .for =>
    Parser.advance
    forStatement lower jumps loc
  | .keyword .break =>
    unless jumps.inLoop do
      Parser.fail .illegalBreak loc
    Parser.advance
    terminator
    return .break loc
  | .keyword .continue =>
    unless jumps.inLoop do
      Parser.fail .illegalContinue loc
    Parser.advance
    terminator
    return .continue loc
  | .keyword .throw =>
    Parser.advance
    throwStatementWith terminator lower loc
  | .keyword .try =>
    Parser.advance
    tryStatement lower jumps loc
  | .symbol .leftBrace => return .block (← braced lower jumps) loc
  | .symbol .semicolon =>
    Parser.advance
    return .empty loc
  | _ =>
    let value ← expression lower
    terminator
    return .expr value loc

def aboveWith : Grammar where
  statement := statementRuleWith terminator lower
  assignment := assignmentRule lower
  unary := unaryRule lower
  operand := operandRule lower
  access := accessRule lower

def ofLevelsWith : Nat → Option Grammar
  | 0 => none
  | levels + 1 => some (aboveWith terminator (ofLevelsWith levels))

def scriptWith : Parser (List Stmt) :=
  Parser.many (do return !(← Parser.atEnd)) (nestedStatement (ofLevelsWith terminator maxNesting) {})

end

theorem statementRuleWith_semicolon : statementRuleWith Parser.semicolon = statementRule := by
  funext lower jumps
  unfold statementRuleWith statementRule
  congr 1

theorem ofLevelsWith_semicolon (n : Nat) : ofLevelsWith Parser.semicolon n = ofLevels n := by
  induction n with
  | zero => rfl
  | succ n ih =>
    unfold ofLevelsWith ofLevels aboveWith above
    rw [ih, statementRuleWith_semicolon]

theorem scriptWith_semicolon : scriptWith Parser.semicolon = script := by
  unfold scriptWith script
  rw [ofLevelsWith_semicolon]

/-- The grammar in which the semicolon must not be missing at some positions. -/
def demanding (due : Nat → Bool) (n : Nat) : Option Grammar :=
  ofLevelsWith (Parser.demand due) n

/-- No position. -/
def never : Nat → Bool :=
  fun _ => false

theorem demand_never : Parser.demand never = Parser.semicolon :=
  rfl

theorem demanding_never (n : Nat) : demanding never n = ofLevels n :=
  ofLevelsWith_semicolon n

instance (n : Nat) : Strict (demanding never n) := by
  rw [demanding_never]
  infer_instance

/-- A script that is read leaves the semicolon of a statement out at this position. -/
def omits (tokens : Array Token) (i : Nat) : Bool :=
  match (scriptWith (Parser.demand (· == i))).at (.ofTokens tokens) 0 with
  | .ok _ => false
  | .error _ => true

/-- The tokens, of which the first one is at position `i`, with a semicolon at each of the given positions. -/
def withSemicolons (places : Nat → Bool) (loc : Nat → Location) (i : Nat) : List Token → List Token
  | [] => if places i then [⟨.symbol .semicolon, loc i⟩] else []
  | token :: tokens =>
    let rest := token :: withSemicolons places loc (i + 1) tokens
    if places i then ⟨.symbol .semicolon, loc i⟩ :: rest else rest

end Grammar
end ScriptHost
