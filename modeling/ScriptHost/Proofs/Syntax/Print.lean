import ScriptHost.Proofs.Syntax.Arrows
import ScriptHost.Proofs.Syntax.Tree

/-!
This module contains how syntax trees are printed, as the kinds of the tokens of their texts. There are no
more parentheses than the precedences of operators and the starts of statements ask for. It also contains
how many levels of nesting the reading of a printed tree takes.
-/

namespace ScriptHost

def brackets (ks : List TokenKind) : List TokenKind :=
  .symbol .leftBracket :: (ks ++ [.symbol .rightBracket])

def braces (ks : List TokenKind) : List TokenKind :=
  .symbol .leftBrace :: (ks ++ [.symbol .rightBrace])

theorem brackets_append (ks ks' : List TokenKind)
    : brackets ks ++ ks' = .symbol .leftBracket :: (ks ++ .symbol .rightBracket :: ks') := by
  simp [brackets]

theorem braces_append (ks ks' : List TokenKind)
    : braces ks ++ ks' = .symbol .leftBrace :: (ks ++ .symbol .rightBrace :: ks') := by
  simp [braces]

namespace BinaryOp

def symbol : BinaryOp → Symbol
  | add => .plus
  | sub => .minus
  | mul => .star
  | div => .slash
  | mod => .percent
  | eq => .equal
  | ne => .notEqual
  | strictEq => .strictEqual
  | strictNe => .strictNotEqual
  | lt => .less
  | le => .lessEqual
  | gt => .greater
  | ge => .greaterEqual
  | and => .and
  | or => .or

/-- The level of an expression with this operator. -/
def level : BinaryOp → Nat
  | or => 2
  | and => 3
  | eq | ne | strictEq | strictNe => 4
  | lt | le | gt | ge => 5
  | add | sub => 6
  | mul | div | mod => 7

/-- The symbol of the assignment that the operator is combined with. -/
def assignSymbol : BinaryOp → Symbol
  | add => .plusAssign
  | sub => .minusAssign
  | mul => .starAssign
  | div => .slashAssign
  | mod => .percentAssign
  | _ => .assign

end BinaryOp

namespace UnaryOp

def isPostfix : UnaryOp → Bool
  | postInc | postDec => true
  | _ => false

def kind : UnaryOp → TokenKind
  | neg => .symbol .minus
  | plus => .symbol .plus
  | not => .symbol .not
  | typeof => .keyword .typeof
  | preInc | postInc => .symbol .increment
  | preDec | postDec => .symbol .decrement

end UnaryOp

def DeclareKind.kind : DeclareKind → TokenKind
  | var => .keyword .var
  | «let» => .keyword .let
  | const => .keyword .const

/--
How tightly an expression binds: assignments and arrow functions the least, then conditionals, the levels
of binary operators, unary operators, updates behind an operand, calls and accesses, and all others.
-/
def Expr.level : Expr → Nat
  | assign .. | compound .. => 0
  | conditional .. => 1
  | binary op .. => op.level
  | unary op .. => if op.isPostfix then 9 else 8
  | call .. | member .. | index .. => 10
  | function f => if f.body.isBlock then 11 else 0
  | _ => 11

/-- What a text leaves open beside its tree. -/
structure Style where
  /-- A single parameter of an arrow function has no parentheses. -/
  bareParam : Bool := true
  /-- An expression in front of a loop is like one that is a statement of its own. -/
  guardInit : Bool := true

/-- The kinds of an expression where one of the given level is expected. -/
def enclosed (level : Nat) (e : Expr) (ks : List TokenKind) : List TokenKind :=
  if e.level < level then parens ks else ks

def startsWith (k : TokenKind) (ks : List TokenKind) : Bool :=
  ks.head? = some k

/-- Whether a statement with this expression would not be one. -/
def isStatementStart (ks : List TokenKind) : Bool :=
  startsWith (.symbol .leftBrace) ks || startsWith (.keyword .function) ks

def guarded (isGuarded : Bool) (ks : List TokenKind) : List TokenKind :=
  if isGuarded then parens ks else ks

/-- A property is named by a keyword if its name is one. -/
def propertyKind (name : String) : TokenKind :=
  match Keyword.ofText? name with
  | some k => .keyword k
  | none => .name name

def Style.params (σ : Style) : List String → List TokenKind
  | [param] => if σ.bareParam then [.name param] else parens [.name param]
  | params => parens (parameterTokens params)

mutual

def Expr.print (σ : Style) : Expr → List TokenKind
  | .number value _ => [.number value]
  | .string value _ => [.string value]
  | .bool value _ => [.keyword (if value then .true else .false)]
  | .null _ => [.keyword .null]
  | .undefined _ => [.keyword .undefined]
  | .name name _ => [.name name]
  | .array elements _ => brackets (commas (Expr.printEach σ elements))
  | .object properties _ => braces (commas (Property.printEach σ properties))
  | .function f => f.print σ
  | .binary op left right _ =>
    enclosed op.level left (left.print σ) ++
      .symbol op.symbol :: enclosed (op.level + 1) right (right.print σ)
  | .unary op operand _ =>
    if op.isPostfix then enclosed 10 operand (operand.print σ) ++ [op.kind]
    else op.kind :: enclosed 8 operand (operand.print σ)
  | .assign target value _ => enclosed 1 target (target.print σ) ++ .symbol .assign :: value.print σ
  | .compound op target value _ =>
    enclosed 1 target (target.print σ) ++ .symbol op.assignSymbol :: value.print σ
  | .conditional condition whenTrue whenFalse _ =>
    enclosed 2 condition (condition.print σ) ++
      .symbol .question :: (whenTrue.print σ ++ .symbol .colon :: whenFalse.print σ)
  | .call callee args _ =>
    enclosed 10 callee (callee.print σ) ++ parens (commas (Expr.printEach σ args))
  | .member object property _ =>
    enclosed 10 object (object.print σ) ++ [.symbol .dot, propertyKind property]
  | .index object key _ => enclosed 10 object (object.print σ) ++ brackets (key.print σ)

def Expr.printEach (σ : Style) : List Expr → List (List TokenKind)
  | [] => []
  | e :: es => e.print σ :: Expr.printEach σ es

def Expr.print? (σ : Style) : Option Expr → List TokenKind
  | some e => e.print σ
  | none => []

def Property.printEach (σ : Style) : List Property → List (List TokenKind)
  | [] => []
  | ⟨key, value⟩ :: ps => (.string key :: .symbol .colon :: value.print σ) :: Property.printEach σ ps

/-- Functions with a block have the keyword, all others an arrow. -/
def Function.print (σ : Style) : Function → List TokenKind
  | ⟨name, params, .block stmts, _⟩ =>
    .keyword .function :: (name.toList.map .name ++ parens (parameterTokens params) ++
      braces (Stmt.printAll σ stmts))
  | ⟨_, params, .expr value, _⟩ =>
    σ.params params ++
      .symbol .arrow :: guarded (startsWith (.symbol .leftBrace) (value.print σ)) (value.print σ)

def Stmt.print (σ : Style) : Stmt → List TokenKind
  | .declare kind declarators _ =>
    kind.kind :: (commas (Declarator.printEach σ declarators) ++ [.symbol .semicolon])
  | .function f => f.print σ
  | .return value _ => .keyword .return :: (Expr.print? σ value ++ [.symbol .semicolon])
  | .if condition thenBranch elseBranch _ =>
    .keyword .if :: (parens (condition.print σ) ++ braces (Stmt.printAll σ thenBranch) ++
      Stmt.printElse σ elseBranch)
  | .while condition body _ =>
    .keyword .while :: (parens (condition.print σ) ++ braces (Stmt.printAll σ body))
  | .doWhile body condition _ =>
    .keyword .do :: (braces (Stmt.printAll σ body) ++
      .keyword .while :: (parens (condition.print σ) ++ [.symbol .semicolon]))
  | .for init condition update body _ =>
    .keyword .for :: (parens (Stmt.printInit σ init ++ .symbol .semicolon ::
      (Expr.print? σ condition ++ .symbol .semicolon :: Expr.print? σ update)) ++
      braces (Stmt.printAll σ body))
  | .break _ => [.keyword .break, .symbol .semicolon]
  | .continue _ => [.keyword .continue, .symbol .semicolon]
  | .throw value _ => .keyword .throw :: (value.print σ ++ [.symbol .semicolon])
  | .try block handler finalizer _ =>
    .keyword .try :: (braces (Stmt.printAll σ block) ++ Handler.print? σ handler ++
      Stmt.printFinally σ finalizer)
  | .block stmts _ => braces (Stmt.printAll σ stmts)
  | .empty _ => [.symbol .semicolon]
  | .expr value _ =>
    guarded (isStatementStart (value.print σ)) (value.print σ) ++ [.symbol .semicolon]

/-- What stands in front of a loop has no end of its own. -/
def Stmt.printInit (σ : Style) : Option Stmt → List TokenKind
  | some (.declare kind declarators _) => kind.kind :: commas (Declarator.printEach σ declarators)
  | some (.expr value _) =>
    guarded (σ.guardInit && isStatementStart (value.print σ)) (value.print σ)
  | _ => []

def Stmt.printAll (σ : Style) : List Stmt → List TokenKind
  | [] => []
  | st :: stmts => st.print σ ++ Stmt.printAll σ stmts

def Stmt.printElse (σ : Style) : Option (List Stmt) → List TokenKind
  | some stmts => .keyword .else :: braces (Stmt.printAll σ stmts)
  | none => []

def Stmt.printFinally (σ : Style) : Option (List Stmt) → List TokenKind
  | some stmts => .keyword .finally :: braces (Stmt.printAll σ stmts)
  | none => []

def Declarator.printEach (σ : Style) : List Declarator → List (List TokenKind)
  | [] => []
  | ⟨name, init, _⟩ :: ds =>
    (.name name :: Declarator.printValue σ init) :: Declarator.printEach σ ds

def Declarator.printValue (σ : Style) : Option Expr → List TokenKind
  | some e => .symbol .assign :: e.print σ
  | none => []

def Handler.print? (σ : Style) : Option Handler → List TokenKind
  | some ⟨param, body⟩ =>
    .keyword .catch :: ((param.elim [] fun name => parens [.name name]) ++ braces (Stmt.printAll σ body))
  | none => []

end

/-! How many levels of nesting it takes to read what is printed. -/

/-- Parentheses take one more level. -/
def needEnclosed (level : Nat) (e : Expr) (need : Nat) : Nat :=
  if e.level < level then need + 1 else need

def needGuarded (isGuarded : Bool) (need : Nat) : Nat :=
  if isGuarded then need + 1 else need

/-- How many operators or accesses of its own level an expression has on its left side. -/
def Expr.links : Expr → Nat
  | .binary op left _ _ => (if left.level = op.level then left.links else 0) + 1
  | .call inner _ _ | .member inner _ _ | .index inner _ _ =>
    (if inner.level = 10 then inner.links else 0) + 1
  | _ => 0

mutual

/-- The levels of nesting inside an expression. -/
def Expr.need (σ : Style) : Expr → Nat
  | .number .. | .string .. | .bool .. | .null _ | .undefined _ | .name .. => 0
  | .array elements _ => Expr.needAll σ elements
  | .object properties _ => Property.needAll σ properties
  | .function f => f.need σ
  | .binary op left right loc =>
    max (needEnclosed op.level left (left.need σ))
      ((Expr.binary op left right loc).links + needEnclosed (op.level + 1) right (right.need σ))
  | .unary op operand _ =>
    if op.isPostfix then needEnclosed 10 operand (operand.need σ)
    else needEnclosed 8 operand (operand.need σ) + 1
  | .assign target value _ | .compound _ target value _ =>
    max (needEnclosed 1 target (target.need σ)) (value.need σ + 1)
  | .conditional condition whenTrue whenFalse _ =>
    max (needEnclosed 2 condition (condition.need σ)) (max (whenTrue.need σ + 1) (whenFalse.need σ + 1))
  | .call callee args loc =>
    max (needEnclosed 10 callee (callee.need σ)) ((Expr.call callee args loc).links + Expr.needAll σ args)
  | .member object property loc =>
    max (needEnclosed 10 object (object.need σ)) (Expr.member object property loc).links
  | .index object key loc =>
    max (needEnclosed 10 object (object.need σ)) ((Expr.index object key loc).links + (key.need σ + 1))

/-- The levels of nesting for expressions that are nested themselves. -/
def Expr.needAll (σ : Style) : List Expr → Nat
  | [] => 0
  | e :: es => max (e.need σ + 1) (Expr.needAll σ es)

def Expr.need? (σ : Style) : Option Expr → Nat
  | some e => e.need σ + 1
  | none => 0

def Property.needAll (σ : Style) : List Property → Nat
  | [] => 0
  | ⟨_, value⟩ :: ps => max (value.need σ + 1) (Property.needAll σ ps)

def Function.need (σ : Style) : Function → Nat
  | ⟨_, _, .block stmts, _⟩ => Stmt.needAll σ stmts
  | ⟨_, _, .expr value, _⟩ =>
    needGuarded (startsWith (.symbol .leftBrace) (value.print σ)) (value.need σ) + 1

/-- The levels of nesting inside a statement. -/
def Stmt.need (σ : Style) : Stmt → Nat
  | .declare _ declarators _ => Declarator.needAll σ declarators
  | .function f => f.need σ
  | .return value _ => Expr.need? σ value
  | .if condition thenBranch elseBranch _ =>
    max (condition.need σ + 1) (max (Stmt.needAll σ thenBranch) (Stmt.needAll? σ elseBranch))
  | .while condition body _ | .doWhile body condition _ =>
    max (condition.need σ + 1) (Stmt.needAll σ body)
  | .for init condition update body _ =>
    max (Stmt.needInit σ init)
      (max (Expr.need? σ condition) (max (Expr.need? σ update) (Stmt.needAll σ body)))
  | .break _ | .continue _ | .empty _ => 0
  | .throw value _ => value.need σ + 1
  | .try block handler finalizer _ =>
    max (Stmt.needAll σ block) (max (Handler.need? σ handler) (Stmt.needAll? σ finalizer))
  | .block stmts _ => Stmt.needAll σ stmts
  | .expr value _ => needGuarded (isStatementStart (value.print σ)) (value.need σ) + 1

def Stmt.needInit (σ : Style) : Option Stmt → Nat
  | some (.declare _ declarators _) => Declarator.needAll σ declarators
  | some (.expr value _) =>
    needGuarded (σ.guardInit && isStatementStart (value.print σ)) (value.need σ) + 1
  | _ => 0

/-- The levels of nesting for statements that are nested themselves. -/
def Stmt.needAll (σ : Style) : List Stmt → Nat
  | [] => 0
  | st :: stmts => max (st.need σ + 1) (Stmt.needAll σ stmts)

def Stmt.needAll? (σ : Style) : Option (List Stmt) → Nat
  | some stmts => Stmt.needAll σ stmts
  | none => 0

def Declarator.needAll (σ : Style) : List Declarator → Nat
  | [] => 0
  | ⟨_, init, _⟩ :: ds => max (Expr.need? σ init) (Declarator.needAll σ ds)

def Handler.need? (σ : Style) : Option Handler → Nat
  | some ⟨_, body⟩ => Stmt.needAll σ body
  | none => 0

end

section

-- Their equations are made here, once, and not by the first of many proofs that the others wait for.
attribute [local simp] Expr.print Stmt.print Expr.need Stmt.need

end

end ScriptHost
