import ScriptHost.Syntax.Grammar

/-!
This module contains the syntax trees that scripts have: those without their locations, and the ones that
are well-formed.
-/

namespace ScriptHost

mutual

/-- The tree without its locations. -/
def Expr.unplaced : Expr → Expr
  | .number value _ => .number value {}
  | .string value _ => .string value {}
  | .bool value _ => .bool value {}
  | .null _ => .null {}
  | .undefined _ => .undefined {}
  | .name name _ => .name name {}
  | .array elements _ => .array (Expr.unplacedAll elements) {}
  | .object properties _ => .object (Property.unplacedAll properties) {}
  | .function f => .function f.unplaced
  | .binary op left right _ => .binary op left.unplaced right.unplaced {}
  | .unary op operand _ => .unary op operand.unplaced {}
  | .assign target value _ => .assign target.unplaced value.unplaced {}
  | .compound op target value _ => .compound op target.unplaced value.unplaced {}
  | .conditional condition whenTrue whenFalse _ =>
    .conditional condition.unplaced whenTrue.unplaced whenFalse.unplaced {}
  | .call callee args _ => .call callee.unplaced (Expr.unplacedAll args) {}
  | .member object property _ => .member object.unplaced property {}
  | .index object key _ => .index object.unplaced key.unplaced {}

def Expr.unplacedAll : List Expr → List Expr
  | [] => []
  | e :: es => e.unplaced :: Expr.unplacedAll es

def Expr.unplaced? : Option Expr → Option Expr
  | some e => some e.unplaced
  | none => none

def Property.unplacedAll : List Property → List Property
  | [] => []
  | ⟨key, value⟩ :: ps => ⟨key, value.unplaced⟩ :: Property.unplacedAll ps

def Function.unplaced : Function → Function
  | ⟨name, params, body, _⟩ => ⟨name, params, body.unplaced, {}⟩

def FunctionBody.unplaced : FunctionBody → FunctionBody
  | .block stmts => .block (Stmt.unplacedAll stmts)
  | .expr value => .expr value.unplaced

def Stmt.unplaced : Stmt → Stmt
  | .declare kind declarators _ => .declare kind (Declarator.unplacedAll declarators) {}
  | .function f => .function f.unplaced
  | .return value _ => .return (Expr.unplaced? value) {}
  | .if condition thenBranch elseBranch _ =>
    .if condition.unplaced (Stmt.unplacedAll thenBranch) (Stmt.unplacedAll? elseBranch) {}
  | .while condition body _ => .while condition.unplaced (Stmt.unplacedAll body) {}
  | .doWhile body condition _ => .doWhile (Stmt.unplacedAll body) condition.unplaced {}
  | .for init condition update body _ =>
    .for (Stmt.unplaced? init) (Expr.unplaced? condition) (Expr.unplaced? update)
      (Stmt.unplacedAll body) {}
  | .break _ => .break {}
  | .continue _ => .continue {}
  | .throw value _ => .throw value.unplaced {}
  | .try block handler finalizer _ =>
    .try (Stmt.unplacedAll block) (Handler.unplaced? handler) (Stmt.unplacedAll? finalizer) {}
  | .block stmts _ => .block (Stmt.unplacedAll stmts) {}
  | .empty _ => .empty {}
  | .expr value _ => .expr value.unplaced {}

def Stmt.unplaced? : Option Stmt → Option Stmt
  | some st => some st.unplaced
  | none => none

def Stmt.unplacedAll : List Stmt → List Stmt
  | [] => []
  | st :: stmts => st.unplaced :: Stmt.unplacedAll stmts

def Stmt.unplacedAll? : Option (List Stmt) → Option (List Stmt)
  | some stmts => some (Stmt.unplacedAll stmts)
  | none => none

def Declarator.unplacedAll : List Declarator → List Declarator
  | [] => []
  | ⟨name, init, _⟩ :: ds => ⟨name, Expr.unplaced? init, {}⟩ :: Declarator.unplacedAll ds

def Handler.unplaced? : Option Handler → Option Handler
  | some ⟨param, body⟩ => some ⟨param, Stmt.unplacedAll body⟩
  | none => none

end

/-- Whether the operator may be combined with an assignment. -/
def BinaryOp.isArithmetic : BinaryOp → Bool
  | add | sub | mul | div | mod => true
  | _ => false

def FunctionBody.isBlock : FunctionBody → Bool
  | block _ => true
  | expr _ => false

/-- Whether the statement may stand in front of a loop. -/
def Stmt.isInit : Stmt → Bool
  | declare .. | expr .. => true
  | _ => false

mutual

/-- The tree is one of a script: updates and assignments have places to store to. -/
def Expr.WellFormed : Expr → Prop
  | .number .. | .string .. | .bool .. | .null _ | .undefined _ | .name .. => True
  | .array elements _ => Expr.WellFormedAll elements
  | .object properties _ => Property.WellFormedAll properties
  | .function f => f.WellFormed
  | .binary _ left right _ => left.WellFormed ∧ right.WellFormed
  | .unary op operand _ => (op.isUpdate → operand.isAssignable) ∧ operand.WellFormed
  | .assign target value _ => target.isAssignable ∧ target.WellFormed ∧ value.WellFormed
  | .compound op target value _ =>
    op.isArithmetic ∧ target.isAssignable ∧ target.WellFormed ∧ value.WellFormed
  | .conditional condition whenTrue whenFalse _ =>
    condition.WellFormed ∧ whenTrue.WellFormed ∧ whenFalse.WellFormed
  | .call callee args _ => callee.WellFormed ∧ Expr.WellFormedAll args
  | .member object _ _ => object.WellFormed
  | .index object key _ => object.WellFormed ∧ key.WellFormed

def Expr.WellFormedAll : List Expr → Prop
  | [] => True
  | e :: es => e.WellFormed ∧ Expr.WellFormedAll es

def Expr.WellFormed? : Option Expr → Prop
  | some e => e.WellFormed
  | none => True

def Property.WellFormedAll : List Property → Prop
  | [] => True
  | ⟨_, value⟩ :: ps => value.WellFormed ∧ Property.WellFormedAll ps

/-- The parameters differ. A function without a block has no name. -/
def Function.WellFormed : Function → Prop
  | ⟨name, params, body, _⟩ =>
    params.Nodup ∧ (body.isBlock ∨ name = none) ∧ body.WellFormed

def FunctionBody.WellFormed : FunctionBody → Prop
  | .block stmts => Stmt.WellFormedAll { inFunction := true } stmts
  | .expr value => value.WellFormed

/-- The tree is one of a statement that may contain the given jumps. -/
def Stmt.WellFormed (jumps : Jumps) : Stmt → Prop
  | .declare kind declarators _ =>
    declarators ≠ [] ∧ (kind = .const → ∀ d ∈ declarators, d.init.isSome) ∧
      Declarator.WellFormedAll declarators
  | .function f => f.name.isSome ∧ f.body.isBlock ∧ f.WellFormed
  | .return value _ => jumps.inFunction ∧ Expr.WellFormed? value
  | .if condition thenBranch elseBranch _ =>
    condition.WellFormed ∧ Stmt.WellFormedAll jumps thenBranch ∧ Stmt.WellFormedAll? jumps elseBranch
  | .while condition body _ =>
    condition.WellFormed ∧ Stmt.WellFormedAll { jumps with inLoop := true } body
  | .doWhile body condition _ =>
    Stmt.WellFormedAll { jumps with inLoop := true } body ∧ condition.WellFormed
  | .for init condition update body _ =>
    (∀ st ∈ init, st.isInit) ∧ Stmt.WellFormed? jumps init ∧ Expr.WellFormed? condition ∧
      Expr.WellFormed? update ∧ Stmt.WellFormedAll { jumps with inLoop := true } body
  | .break _ | .continue _ => jumps.inLoop
  | .throw value _ => value.WellFormed
  | .try block handler finalizer _ =>
    (handler.isSome ∨ finalizer.isSome) ∧ Stmt.WellFormedAll jumps block ∧
      Handler.WellFormed? jumps handler ∧ Stmt.WellFormedAll? jumps finalizer
  | .block stmts _ => Stmt.WellFormedAll jumps stmts
  | .empty _ => True
  | .expr value _ => value.WellFormed

def Stmt.WellFormed? (jumps : Jumps) : Option Stmt → Prop
  | some st => st.WellFormed jumps
  | none => True

def Stmt.WellFormedAll (jumps : Jumps) : List Stmt → Prop
  | [] => True
  | st :: stmts => st.WellFormed jumps ∧ Stmt.WellFormedAll jumps stmts

def Stmt.WellFormedAll? (jumps : Jumps) : Option (List Stmt) → Prop
  | some stmts => Stmt.WellFormedAll jumps stmts
  | none => True

def Declarator.WellFormedAll : List Declarator → Prop
  | [] => True
  | ⟨_, init, _⟩ :: ds => Expr.WellFormed? init ∧ Declarator.WellFormedAll ds

def Handler.WellFormed? (jumps : Jumps) : Option Handler → Prop
  | some ⟨_, body⟩ => Stmt.WellFormedAll jumps body
  | none => True

end

section

-- Their equations are made here, once, and not by the first of many proofs that the others wait for.
attribute [local simp] Expr.unplaced Stmt.unplaced

end

end ScriptHost
