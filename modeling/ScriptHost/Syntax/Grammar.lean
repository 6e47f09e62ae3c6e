import ScriptHost.Syntax.TokenStream
import ScriptHost.Syntax.Basic

/-!
This module contains what the rules of the grammar share. Rules call each other through a `Grammar`,
one for each number of nesting levels that are left. A rule that nests a construct enters the next
grammar down, and fails if there is none.
-/

namespace ScriptHost

/-- Which jumps a statement may contain. -/
structure Jumps where
  inFunction : Bool := false
  inLoop : Bool := false

/-- A binary operator with the ones of the same precedence. -/
abbrev Precedence := List (Symbol × BinaryOp)

/-- The rules that nested constructs are read with. -/
structure Grammar where
  statement : Jumps → Parser Stmt
  assignment : Parser Expr
  unary : Parser Expr
  /-- The right operand of an operator, whose symbol has been taken, and the operators after it. -/
  operand (level : Precedence) (tighter : List Precedence) (op : BinaryOp) (loc : Location)
    (left : Expr) : Parser Expr
  /-- A call, member or index behind an expression, and the ones after it. -/
  access (object : Expr) : Parser Expr

namespace Grammar

variable (lower : Option Grammar)

def nested (rule : Grammar → Parser α) : Parser α :=
  match lower with
  | some g => rule g
  | none => do Parser.fail .nestedTooDeep (← Parser.location)

def nestedStatement (jumps : Jumps) : Parser Stmt :=
  nested lower fun g => g.statement jumps

def expression : Parser Expr :=
  nested lower fun g => g.assignment

def inBlock : Parser Bool := do
  if ← Parser.checkSymbol .rightBrace then return false
  return !(← Parser.atEnd)

/-- The statements between two braces. -/
def braced (jumps : Jumps) : Parser (List Stmt) := do
  Parser.expectSymbol .leftBrace
  let statements ← Parser.many inBlock (nestedStatement lower jumps)
  Parser.expectSymbol .rightBrace
  return statements

/-- Parameter names up to the closing parenthesis, which is not taken. No name occurs twice. -/
def parameters : Parser (List String) := do
  if ← Parser.checkSymbol .rightParen then
    return []
  go (← Parser.remaining) []
where
  go : Nat → List String → Parser (List String)
    | 0, params => return params
    | fuel + 1, params => do
      let loc ← Parser.location
      let param ← Parser.name
      if params.contains param then
        Parser.fail .duplicateParameter loc
      let params := params ++ [param]
      if ← Parser.acceptSymbol .comma then
        go fuel params
      else
        return params

/-- A `function` literal. The name of a declaration must not be missing. -/
def functionLiteral (named : Bool) : Parser Function := do
  let start ← Parser.location
  Parser.expectKeyword .function
  let name ← match named, (← Parser.peek).kind with
    | false, .name _ => some <$> Parser.name
    | true, _ => some <$> Parser.name
    | false, _ => pure none
  Parser.expectSymbol .leftParen
  let params ← parameters
  Parser.expectSymbol .rightParen
  let body ← braced lower { inFunction := true }
  return ⟨name, params, .block body, start.through (← Parser.previous).loc⟩

end Grammar
end ScriptHost
