import ScriptHost.Syntax.Grammar.Expr

/-!
This module contains the rules for statements.
-/

namespace ScriptHost.Grammar

variable (lower : Option Grammar)

/-- A body is a list of statements, with or without braces around it. -/
def body (jumps : Jumps) : Parser (List Stmt) := do
  if ← Parser.checkSymbol .leftBrace then
    braced lower jumps
  else
    return [← nestedStatement lower jumps]

/-- An expression in parentheses. -/
def condition : Parser Expr := do
  Parser.expectSymbol .leftParen
  let e ← expression lower
  Parser.expectSymbol .rightParen
  return e

def declareKind? : TokenKind → Option DeclareKind
  | .keyword .var => some .var
  | .keyword .let => some .let
  | .keyword .const => some .const
  | _ => none

/-- A name and its first value, which only a constant needs. -/
def declarator (kind : DeclareKind) : Parser Declarator := do
  let loc ← Parser.location
  let name ← Parser.name
  let init ← if ← Parser.acceptSymbol .assign then some <$> expression lower else pure none
  if kind = .const && init.isNone then
    Parser.fail .missingInitializer loc
  return ⟨name, init, loc⟩

/-- A declaration without its end. -/
def declaration (kind : DeclareKind) : Parser Stmt := do
  let loc ← Parser.location
  Parser.advance
  return .declare kind (← Parser.commaSeparated (declarator lower kind)) loc

def returnStatement (loc : Location) : Parser Stmt := do
  let bare := (← Parser.checkSymbol .semicolon) || (← Parser.checkSymbol .rightBrace)
    || (← Parser.atEnd) || (← Parser.lineBreakBefore)
  let value ← if bare then pure none else some <$> expression lower
  Parser.semicolon
  return .return value loc

def ifStatement (jumps : Jumps) (loc : Location) : Parser Stmt := do
  let test ← condition lower
  let thenBranch ← body lower jumps
  let elseBranch ← if ← Parser.acceptKeyword .else then some <$> body lower jumps else pure none
  return .if test thenBranch elseBranch loc

def whileStatement (jumps : Jumps) (loc : Location) : Parser Stmt := do
  let test ← condition lower
  return .while test (← body lower { jumps with inLoop := true }) loc

/-- The semicolon behind the condition may always be missing. -/
def doStatement (jumps : Jumps) (loc : Location) : Parser Stmt := do
  let statements ← body lower { jumps with inLoop := true }
  Parser.expectKeyword .while
  let test ← condition lower
  discard <| Parser.acceptSymbol .semicolon
  return .doWhile statements test loc

/-- An expression, unless the given symbol stands in its place. -/
def optionalExpression (close : Symbol) : Parser (Option Expr) := do
  if ← Parser.checkSymbol close then return none
  return some (← expression lower)

def forInit : Parser (Option Stmt) := do
  let token ← Parser.peek
  if token.kind = .symbol .semicolon then return none
  match declareKind? token.kind with
  | some kind => return some (← declaration lower kind)
  | none => return some (.expr (← expression lower) token.loc)

def forStatement (jumps : Jumps) (loc : Location) : Parser Stmt := do
  Parser.expectSymbol .leftParen
  let init ← forInit lower
  Parser.expectSymbol .semicolon
  let test ← optionalExpression lower .semicolon
  Parser.expectSymbol .semicolon
  let update ← optionalExpression lower .rightParen
  Parser.expectSymbol .rightParen
  return .for init test update (← body lower { jumps with inLoop := true }) loc

def handlerParam : Parser (Option String) := do
  if ← Parser.acceptSymbol .leftParen then
    let name ← Parser.name
    Parser.expectSymbol .rightParen
    return some name
  else
    return none

def tryStatement (jumps : Jumps) (loc : Location) : Parser Stmt := do
  let block ← braced lower jumps
  let handler ← if ← Parser.acceptKeyword .catch then do
      let param ← handlerParam
      let body ← braced lower jumps
      pure (some ⟨param, body⟩)
    else
      pure none
  let finalizer ← if ← Parser.acceptKeyword .finally then some <$> braced lower jumps
    else pure none
  if handler.isNone && finalizer.isNone then
    Parser.fail .missingHandler (← Parser.location)
  return .try block handler finalizer loc

def throwStatement (loc : Location) : Parser Stmt := do
  if ← Parser.lineBreakBefore then
    Parser.fail .newlineAfterThrow loc
  let value ← expression lower
  Parser.semicolon
  return .throw value loc

def statementRule (jumps : Jumps) : Parser Stmt := do
  let ⟨kind, loc⟩ ← Parser.peek
  match kind with
  | .keyword .var | .keyword .let | .keyword .const =>
    let declared ← declaration lower ((declareKind? kind).getD .var)
    Parser.semicolon
    return declared
  | .keyword .function => return .function (← functionLiteral lower true)
  | .keyword .return =>
    unless jumps.inFunction do
      Parser.fail .illegalReturn loc
    Parser.advance
    returnStatement lower loc
  | .keyword .if =>
    Parser.advance
    ifStatement lower jumps loc
  | .keyword .while =>
    Parser.advance
    whileStatement lower jumps loc
  | .keyword .do =>
    Parser.advance
    doStatement lower jumps loc
  | .keyword .for =>
    Parser.advance
    forStatement lower jumps loc
  | .keyword .break =>
    unless jumps.inLoop do
      Parser.fail .illegalBreak loc
    Parser.advance
    Parser.semicolon
    return .break loc
  | .keyword .continue =>
    unless jumps.inLoop do
      Parser.fail .illegalContinue loc
    Parser.advance
    Parser.semicolon
    return .continue loc
  | .keyword .throw =>
    Parser.advance
    throwStatement lower loc
  | .keyword .try =>
    Parser.advance
    tryStatement lower jumps loc
  | .symbol .leftBrace => return .block (← braced lower jumps) loc
  | .symbol .semicolon =>
    Parser.advance
    return .empty loc
  | _ =>
    let value ← expression lower
    Parser.semicolon
    return .expr value loc

end ScriptHost.Grammar
