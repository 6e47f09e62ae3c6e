import ScriptHost.Syntax.Grammar
import ScriptHost.Double.Text

/-!
This module contains the rules for expressions. From the loosest binding to the tightest they are
assignments and arrow functions, conditionals, the levels of binary operators, unary operators,
updates behind an operand, calls and accesses, and primary expressions.
-/

namespace ScriptHost.Grammar

/-- The binary operators by precedence, the loosest ones first. -/
def precedences : List Precedence := [
  [(.or, .or)],
  [(.and, .and)],
  [(.equal, .eq), (.notEqual, .ne), (.strictEqual, .strictEq), (.strictNotEqual, .strictNe)],
  [(.less, .lt), (.lessEqual, .le), (.greater, .gt), (.greaterEqual, .ge)],
  [(.plus, .add), (.minus, .sub)],
  [(.star, .mul), (.slash, .div), (.percent, .mod)]]

variable (lower : Option Grammar)

def arrayLiteral : Parser Expr := do
  let start ← Parser.location
  Parser.expectSymbol .leftBracket
  let elements ← Parser.listUntil .rightBracket (expression lower)
  Parser.expectSymbol .rightBracket
  return .array elements (start.through (← Parser.previous).loc)

/-- The key of a property, and whether it may stand for its value too. -/
def propertyKey : Parser (String × Bool) := do
  match (← Parser.peek).kind with
  | .string s =>
    Parser.advance
    return (s, false)
  | .number x =>
    Parser.advance
    return (x.toText, false)
  | .name _ => return (← Parser.propertyName, true)
  | _ => return (← Parser.propertyName, false)

/-- A property of an object literal. A name alone has the value of the variable with that name. -/
def property : Parser Property := do
  let loc ← Parser.location
  let (key, alone) ← propertyKey
  if ← Parser.acceptSymbol .colon then
    return ⟨key, ← expression lower⟩
  let endsHere := (← Parser.checkSymbol .comma) || (← Parser.checkSymbol .rightBrace)
  if alone && endsHere then
    return ⟨key, .name key loc⟩
  Parser.unexpected

def objectLiteral : Parser Expr := do
  let start ← Parser.location
  Parser.expectSymbol .leftBrace
  let properties ← Parser.listUntil .rightBrace (property lower)
  Parser.expectSymbol .rightBrace
  return .object properties (start.through (← Parser.previous).loc)

/-- The expression that a token is on its own. -/
def literal? (token : Token) : Option Expr :=
  match token.kind with
  | .number x => some (.number x token.loc)
  | .string s => some (.string s token.loc)
  | .name s => some (.name s token.loc)
  | .keyword .true => some (.bool true token.loc)
  | .keyword .false => some (.bool false token.loc)
  | .keyword .null => some (.null token.loc)
  | .keyword .undefined => some (.undefined token.loc)
  | _ => none

/-- Literals, variables, and expressions in parentheses, which leave no trace. -/
def primary : Parser Expr := do
  let token ← Parser.peek
  match literal? token with
  | some e =>
    Parser.advance
    return e
  | none =>
    match token.kind with
    | .keyword .function => return .function (← functionLiteral lower false)
    | .symbol .leftBracket => arrayLiteral lower
    | .symbol .leftBrace => objectLiteral lower
    | .symbol .leftParen =>
      Parser.advance
      let e ← expression lower
      Parser.expectSymbol .rightParen
      return e
    | _ => Parser.unexpected

/-- The location of a call: that of the name, property or index that is called, else of its parenthesis. -/
def callLocation (callee : Expr) (paren : Location) : Location :=
  if callee.isAssignable then callee.loc else paren

/-- The accesses behind an expression. Each one nests the ones before it. -/
def accesses (object : Expr) : Parser Expr := do
  match (← Parser.peek).kind with
  | .symbol .leftParen | .symbol .dot | .symbol .leftBracket =>
    nested lower fun g => g.access object
  | _ => return object

def accessRule (object : Expr) : Parser Expr := do
  let token ← Parser.peek
  Parser.advance
  match token.kind with
  | .symbol .leftParen =>
    let args ← Parser.listUntil .rightParen (expression lower)
    Parser.expectSymbol .rightParen
    accesses lower (.call object args (callLocation object token.loc))
  | .symbol .dot =>
    let loc ← Parser.location
    accesses lower (.member object (← Parser.propertyName) loc)
  | _ =>
    let key ← expression lower
    Parser.expectSymbol .rightBracket
    accesses lower (.index object key (token.loc.through (← Parser.previous).loc))

/-- An operand with the updates behind it. A line break in front of an update ends the expression. -/
def updated : Parser Expr := do
  let operand ← accesses lower (← primary lower)
  if ← Parser.lineBreakBefore then
    return operand
  let token ← Parser.peek
  let op? : Option UnaryOp := match token.kind with
    | .symbol .increment => some .postInc
    | .symbol .decrement => some .postDec
    | _ => none
  match op? with
  | none => return operand
  | some op =>
    unless operand.isAssignable do
      Parser.fail .invalidPostfixTarget operand.loc
    Parser.advance
    return .unary op operand token.loc

/-- The operator that a token is in front of its operand. -/
def unaryOp? : TokenKind → Option UnaryOp
  | .symbol .not => some .not
  | .symbol .minus => some .neg
  | .symbol .plus => some .plus
  | .keyword .typeof => some .typeof
  | .symbol .increment => some .preInc
  | .symbol .decrement => some .preDec
  | _ => none

def unaryRule : Parser Expr := do
  let token ← Parser.peek
  match unaryOp? token.kind with
  | none => updated lower
  | some op =>
    Parser.advance
    let operand ← nested lower fun g => g.unary
    if op.isUpdate && !operand.isAssignable then
      Parser.fail .invalidPrefixTarget operand.loc
    return .unary op operand token.loc

/-- The operator of a precedence level that a token is between its operands. -/
def binaryOp? (level : Precedence) : TokenKind → Option BinaryOp
  | .symbol s => level.lookup s
  | _ => none

/-- The operators of a level behind a left operand. Each one nests the ones before it. -/
def operators (level : Precedence) (tighter : List Precedence) (left : Expr) : Parser Expr := do
  let token ← Parser.peek
  match binaryOp? level token.kind with
  | none => return left
  | some op =>
    Parser.advance
    nested lower fun g => g.operand level tighter op token.loc left

/-- Expressions with binary operators from the given levels only. -/
def binary : List Precedence → Parser Expr
  | [] => unaryRule lower
  | level :: tighter => do operators lower level tighter (← binary tighter)

def operandRule (level : Precedence) (tighter : List Precedence) (op : BinaryOp) (loc : Location)
    (left : Expr) : Parser Expr := do
  let right ← binary lower tighter
  operators lower level tighter (.binary op left right loc)

def conditional : Parser Expr := do
  let condition ← binary lower precedences
  let loc ← Parser.location
  if ← Parser.acceptSymbol .question then
    let whenTrue ← expression lower
    Parser.expectSymbol .colon
    let whenFalse ← expression lower
    return .conditional condition whenTrue whenFalse loc
  else
    return condition

/-- Whether an arrow function starts here: a name before an arrow, or parameters before one. -/
def atArrowFunction : Parser Bool := do
  match (← Parser.peek).kind with
  | .name _ => return (← Parser.peekSecond).kind = .symbol .arrow
  | .symbol .leftParen => return (← read).arrows.contains (← get)
  | _ => return false

def arrowFunction : Parser Expr := do
  let start ← Parser.location
  let params ← if ← Parser.acceptSymbol .leftParen then do
      let params ← parameters
      Parser.expectSymbol .rightParen
      pure params
    else
      pure [← Parser.name]
  Parser.expectSymbol .arrow
  let body ← if ← Parser.checkSymbol .leftBrace then
      FunctionBody.block <$> braced lower { inFunction := true }
    else
      FunctionBody.expr <$> expression lower
  return .function ⟨none, params, body, start.through (← Parser.previous).loc⟩

/-- The operator of an assignment: `none` if the token is none, `some none` if it only stores. -/
def assignOp? : TokenKind → Option (Option BinaryOp)
  | .symbol .assign => some none
  | .symbol .plusAssign => some (some .add)
  | .symbol .minusAssign => some (some .sub)
  | .symbol .starAssign => some (some .mul)
  | .symbol .slashAssign => some (some .div)
  | .symbol .percentAssign => some (some .mod)
  | _ => none

def assignmentRule : Parser Expr := do
  if ← atArrowFunction then
    arrowFunction lower
  else
    let target ← conditional lower
    let token ← Parser.peek
    match assignOp? token.kind with
    | none => return target
    | some op? =>
      unless target.isAssignable do
        Parser.fail .invalidAssignmentTarget target.loc
      Parser.advance
      let value ← expression lower
      match op? with
      | none => return .assign target value token.loc
      | some op => return .compound op target value token.loc

end ScriptHost.Grammar
