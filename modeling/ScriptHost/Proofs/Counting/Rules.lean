import ScriptHost.Proofs.Counting.Basic

/-!
This module contains the rules of the grammar as readers with counters. The operators of a level and the accesses
behind an expression are read in loops.
-/

namespace ScriptHost.Counting

/-- The rules that nested constructs are read with. -/
structure Rules where
  statement : Reader Stmt
  assignment : Reader Expr
  unary : Reader Expr

variable (fuel : Nat) (calls : Rules)

def nestedStatement : Reader Stmt :=
  .nested calls.statement

def expression : Reader Expr :=
  .nested calls.assignment

/-- Statements up to a closing brace, which is not taken. -/
def statements : Reader (List Stmt) :=
  .many fuel Grammar.inBlock (nestedStatement calls)

def braced : Reader (List Stmt) := do
  Parser.expectSymbol .leftBrace
  let stmts ← statements fuel calls
  Parser.expectSymbol .rightBrace
  return stmts

def parameters : Reader (List String) := do
  if ← Parser.checkSymbol .rightParen then
    return []
  go fuel []
where
  go : Nat → List String → Reader (List String)
    | 0, _ => .mishap .outOfFuel
    | fuel + 1, params => do
      let loc ← Parser.location
      let param ← Parser.name
      if params.contains param then
        Parser.fail .duplicateParameter loc
      let params := params ++ [param]
      if ← Parser.acceptSymbol .comma then
        go fuel params
      else
        return params

def functionLiteral (named : Bool) : Reader Function := do
  let start ← Parser.location
  Parser.expectKeyword .function
  let name ← match named, (← Parser.peek).kind with
    | false, .name _ => some <$> Parser.name
    | true, _ => some <$> Parser.name
    | false, _ => pure none
  Parser.expectSymbol .leftParen
  let params ← parameters fuel
  Parser.expectSymbol .rightParen
  let body ← Reader.inFunction (braced fuel calls)
  return ⟨name, params, .block body, start.through (← Parser.previous).loc⟩

/-! Expressions. -/

def arrayLiteral : Reader Expr := do
  let start ← Parser.location
  Parser.expectSymbol .leftBracket
  let elements ← Reader.listUntil fuel .rightBracket (expression calls)
  Parser.expectSymbol .rightBracket
  return .array elements (start.through (← Parser.previous).loc)

def property : Reader Property := do
  let loc ← Parser.location
  let (key, alone) ← Grammar.propertyKey
  if ← Parser.acceptSymbol .colon then
    return ⟨key, ← expression calls⟩
  let endsHere := (← Parser.checkSymbol .comma) || (← Parser.checkSymbol .rightBrace)
  if alone && endsHere then
    return ⟨key, .name key loc⟩
  Parser.unexpected

def objectLiteral : Reader Expr := do
  let start ← Parser.location
  Parser.expectSymbol .leftBrace
  let properties ← Reader.listUntil fuel .rightBrace (property calls)
  Parser.expectSymbol .rightBrace
  return .object properties (start.through (← Parser.previous).loc)

def primary : Reader Expr := do
  let token ← Parser.peek
  match Grammar.literal? token with
  | some e =>
    Parser.advance
    return e
  | none =>
    match token.kind with
    | .keyword .function => return .function (← functionLiteral fuel calls false)
    | .symbol .leftBracket => arrayLiteral fuel calls
    | .symbol .leftBrace => objectLiteral fuel calls
    | .symbol .leftParen =>
      Parser.advance
      let e ← expression calls
      Parser.expectSymbol .rightParen
      return e
    | _ => Parser.unexpected

def arguments : Reader (List Expr) :=
  .listUntil fuel .rightParen (expression calls)

/-- The accesses behind an expression, of which `links` have been read. -/
def accesses : Nat → Nat → Expr → Reader Expr
  | 0, _, _ => .mishap .outOfFuel
  | rounds + 1, links, object => do
    let token ← Parser.peek
    match token.kind with
    | .symbol .leftParen =>
      Reader.enter
      Parser.advance
      let args ← arguments fuel calls
      Parser.expectSymbol .rightParen
      accesses rounds (links + 1) (.call object args (Grammar.callLocation object token.loc))
    | .symbol .dot =>
      Reader.enter
      Parser.advance
      let loc ← Parser.location
      accesses rounds (links + 1) (.member object (← Parser.propertyName) loc)
    | .symbol .leftBracket =>
      Reader.enter
      Parser.advance
      let key ← expression calls
      Parser.expectSymbol .rightBracket
      accesses rounds (links + 1) (.index object key (token.loc.through (← Parser.previous).loc))
    | _ =>
      Reader.change (Reader.leave links)
      return object

/-- A primary expression with the accesses behind it. -/
def accessed : Reader Expr := do
  accesses fuel calls fuel 0 (← primary fuel calls)

def updated : Reader Expr := do
  let operand ← accessed fuel calls
  if ← Parser.lineBreakBefore then
    return operand
  let token ← Parser.peek
  let op? : Option UnaryOp := match token.kind with
    | .symbol .increment => some .postInc
    | .symbol .decrement => some .postDec
    | _ => none
  match op? with
  | none => return operand
  | some op =>
    unless operand.isAssignable do
      Parser.fail .invalidPostfixTarget operand.loc
    Parser.advance
    return .unary op operand token.loc

def unaryRule : Reader Expr := do
  let token ← Parser.peek
  match Grammar.unaryOp? token.kind with
  | none => updated fuel calls
  | some op =>
    Parser.advance
    let operand ← Reader.nested calls.unary
    if op.isUpdate && !operand.isAssignable then
      Parser.fail .invalidPrefixTarget operand.loc
    return .unary op operand token.loc

/-- The operators of a level behind a left operand, of which `links` have been read. -/
def operators (level : Precedence) (operand : Reader Expr) : Nat → Nat → Expr → Reader Expr
  | 0, _, _ => .mishap .outOfFuel
  | rounds + 1, links, left => do
    let token ← Parser.peek
    match Grammar.binaryOp? level token.kind with
    | none =>
      Reader.change (Reader.leave links)
      return left
    | some op =>
      Parser.advance
      Reader.enter
      let right ← operand
      operators level operand rounds (links + 1) (.binary op left right token.loc)

def binary : List Precedence → Reader Expr
  | [] => unaryRule fuel calls
  | level :: tighter => do operators level (binary tighter) fuel 0 (← binary tighter)

def conditional : Reader Expr := do
  let condition ← binary fuel calls Grammar.precedences
  let loc ← Parser.location
  if ← Parser.acceptSymbol .question then
    let whenTrue ← expression calls
    Parser.expectSymbol .colon
    let whenFalse ← expression calls
    return .conditional condition whenTrue whenFalse loc
  else
    return condition

def arrowFunction : Reader Expr := do
  let start ← Parser.location
  let params ← if ← Parser.acceptSymbol .leftParen then do
      let params ← parameters fuel
      Parser.expectSymbol .rightParen
      pure params
    else
      pure [← Parser.name]
  Parser.expectSymbol .arrow
  let body ← Reader.inFunction do
    if ← Parser.checkSymbol .leftBrace then
      FunctionBody.block <$> braced fuel calls
    else
      FunctionBody.expr <$> expression calls
  return .function ⟨none, params, body, start.through (← Parser.previous).loc⟩

def assignmentRule : Reader Expr := do
  if ← Grammar.atArrowFunction then
    arrowFunction fuel calls
  else
    let target ← conditional fuel calls
    let token ← Parser.peek
    match Grammar.assignOp? token.kind with
    | none => return target
    | some op? =>
      unless target.isAssignable do
        Parser.fail .invalidAssignmentTarget target.loc
      Parser.advance
      let value ← expression calls
      match op? with
      | none => return .assign target value token.loc
      | some op => return .compound op target value token.loc

/-! Statements. -/

def body : Reader (List Stmt) := do
  if ← Parser.checkSymbol .leftBrace then
    braced fuel calls
  else
    return [← nestedStatement calls]

def condition : Reader Expr := do
  Parser.expectSymbol .leftParen
  let e ← expression calls
  Parser.expectSymbol .rightParen
  return e

def declarator (kind : DeclareKind) : Reader Declarator := do
  let loc ← Parser.location
  let name ← Parser.name
  let init ← if ← Parser.acceptSymbol .assign then some <$> expression calls else pure none
  if kind = .const && init.isNone then
    Parser.fail .missingInitializer loc
  return ⟨name, init, loc⟩

def declaration (kind : DeclareKind) : Reader Stmt := do
  let loc ← Parser.location
  Parser.advance
  return .declare kind (← Reader.commaSeparated fuel (declarator calls kind)) loc

def returnStatement (loc : Location) : Reader Stmt := do
  let bare := (← Parser.checkSymbol .semicolon) || (← Parser.checkSymbol .rightBrace)
    || (← Parser.atEnd) || (← Parser.lineBreakBefore)
  let value ← if bare then pure none else some <$> expression calls
  Parser.semicolon
  return .return value loc

def ifStatement (loc : Location) : Reader Stmt := do
  let test ← condition calls
  let thenBranch ← body fuel calls
  let elseBranch ← if ← Parser.acceptKeyword .else then some <$> body fuel calls else pure none
  return .if test thenBranch elseBranch loc

def whileStatement (loc : Location) : Reader Stmt := do
  let test ← condition calls
  return .while test (← Reader.inLoop (body fuel calls)) loc

def doStatement (loc : Location) : Reader Stmt := do
  let statements ← Reader.inLoop (body fuel calls)
  Parser.expectKeyword .while
  let test ← condition calls
  discard <| Parser.acceptSymbol .semicolon
  return .doWhile statements test loc

def optionalExpression (close : Symbol) : Reader (Option Expr) := do
  if ← Parser.checkSymbol close then return none
  return some (← expression calls)

def forInit : Reader (Option Stmt) := do
  let token ← Parser.peek
  if token.kind = .symbol .semicolon then return none
  match Grammar.declareKind? token.kind with
  | some kind => return some (← declaration fuel calls kind)
  | none => return some (.expr (← expression calls) token.loc)

def forStatement (loc : Location) : Reader Stmt := do
  Parser.expectSymbol .leftParen
  let init ← forInit fuel calls
  Parser.expectSymbol .semicolon
  let test ← optionalExpression calls .semicolon
  Parser.expectSymbol .semicolon
  let update ← optionalExpression calls .rightParen
  Parser.expectSymbol .rightParen
  return .for init test update (← Reader.inLoop (body fuel calls)) loc

def handlerParam : Reader (Option String) := do
  if ← Parser.acceptSymbol .leftParen then
    let name ← Parser.name
    Parser.expectSymbol .rightParen
    return some name
  else
    return none

def tryStatement (loc : Location) : Reader Stmt := do
  let block ← braced fuel calls
  let handler ← if ← Parser.acceptKeyword .catch then do
      let param ← handlerParam
      let body ← braced fuel calls
      pure (some ⟨param, body⟩)
    else
      pure none
  let finalizer ← if ← Parser.acceptKeyword .finally then some <$> braced fuel calls
    else pure none
  if handler.isNone && finalizer.isNone then
    Parser.fail .missingHandler (← Parser.location)
  return .try block handler finalizer loc

def throwStatement (loc : Location) : Reader Stmt := do
  if ← Parser.lineBreakBefore then
    Parser.fail .newlineAfterThrow loc
  let value ← expression calls
  Parser.semicolon
  return .throw value loc

def statementRule : Reader Stmt := do
  let ⟨kind, loc⟩ ← Parser.peek
  match kind with
  | .keyword .var | .keyword .let | .keyword .const =>
    let declared ← declaration fuel calls ((Grammar.declareKind? kind).getD .var)
    Parser.semicolon
    return declared
  | .keyword .function => return .function (← functionLiteral fuel calls true)
  | .keyword .return =>
    unless (← Reader.jumps).inFunction do
      Parser.fail .illegalReturn loc
    Parser.advance
    returnStatement calls loc
  | .keyword .if =>
    Parser.advance
    ifStatement fuel calls loc
  | .keyword .while =>
    Parser.advance
    whileStatement fuel calls loc
  | .keyword .do =>
    Parser.advance
    doStatement fuel calls loc
  | .keyword .for =>
    Parser.advance
    forStatement fuel calls loc
  | .keyword .break =>
    unless (← Reader.jumps).inLoop do
      Parser.fail .illegalBreak loc
    Parser.advance
    Parser.semicolon
    return .break loc
  | .keyword .continue =>
    unless (← Reader.jumps).inLoop do
      Parser.fail .illegalContinue loc
    Parser.advance
    Parser.semicolon
    return .continue loc
  | .keyword .throw =>
    Parser.advance
    throwStatement calls loc
  | .keyword .try =>
    Parser.advance
    tryStatement fuel calls loc
  | .symbol .leftBrace => return .block (← braced fuel calls) loc
  | .symbol .semicolon =>
    Parser.advance
    return .empty loc
  | _ =>
    let value ← expression calls
    Parser.semicolon
    return .expr value loc

/-- The rules that call each other so deep. -/
def rules : Nat → Rules
  | 0 => ⟨.mishap .outOfFuel, .mishap .outOfFuel, .mishap .outOfFuel⟩
  | depth + 1 =>
    let calls := rules depth
    ⟨statementRule fuel calls, assignmentRule fuel calls, unaryRule fuel calls⟩

def script : Reader (List Stmt) :=
  .many fuel (do return !(← Parser.atEnd)) (nestedStatement (rules fuel fuel))

/-- The statements of a script, read with counters that begin at zero, and the counters at the end. -/
def parse (source : String) : Except Mishap (Except SyntaxError (List Stmt) × Counters) :=
  match Token.scan source.toList with
  | .ok tokens => script fuel (.ofTokens tokens) {}
  | .error e => return (.error e, {})

end ScriptHost.Counting
