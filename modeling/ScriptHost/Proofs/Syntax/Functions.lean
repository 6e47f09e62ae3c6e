import ScriptHost.Proofs.Syntax.Locations

/-!
This module contains the functions that occur in a script: those of declarations and expressions, at any
depth.
-/

namespace ScriptHost

mutual

def Expr.functions : Expr → List Function
  | .number .. | .string .. | .bool .. | .null _ | .undefined _ | .name .. => []
  | .array elements _ => Expr.functionsAll elements
  | .object properties _ => Property.functionsAll properties
  | .function f => f.functions
  | .binary _ left right _ => left.functions ++ right.functions
  | .unary _ operand _ => operand.functions
  | .assign target value _ | .compound _ target value _ => target.functions ++ value.functions
  | .conditional condition whenTrue whenFalse _ =>
    condition.functions ++ whenTrue.functions ++ whenFalse.functions
  | .call callee args _ => callee.functions ++ Expr.functionsAll args
  | .member object _ _ => object.functions
  | .index object key _ => object.functions ++ key.functions

def Expr.functionsAll : List Expr → List Function
  | [] => []
  | e :: es => e.functions ++ Expr.functionsAll es

def Expr.functions? : Option Expr → List Function
  | some e => e.functions
  | none => []

def Property.functionsAll : List Property → List Function
  | [] => []
  | ⟨_, value⟩ :: ps => value.functions ++ Property.functionsAll ps

/-- The function and the ones in its body. -/
def Function.functions : Function → List Function
  | ⟨name, params, body, loc⟩ => ⟨name, params, body, loc⟩ :: body.functions

def FunctionBody.functions : FunctionBody → List Function
  | .block stmts => Stmt.functionsAll stmts
  | .expr value => value.functions

def Stmt.functions : Stmt → List Function
  | .declare _ declarators _ => Declarator.functionsAll declarators
  | .function f => f.functions
  | .return value _ => Expr.functions? value
  | .if condition thenBranch elseBranch _ =>
    condition.functions ++ Stmt.functionsAll thenBranch ++ Stmt.functionsAll? elseBranch
  | .while condition body _ => condition.functions ++ Stmt.functionsAll body
  | .doWhile body condition _ => Stmt.functionsAll body ++ condition.functions
  | .for init condition update body _ =>
    Stmt.functions? init ++ Expr.functions? condition ++ Expr.functions? update ++ Stmt.functionsAll body
  | .break _ | .continue _ | .empty _ => []
  | .throw value _ => value.functions
  | .try stmts handler finalizer _ =>
    Stmt.functionsAll stmts ++ Handler.functions? handler ++ Stmt.functionsAll? finalizer
  | .block stmts _ => Stmt.functionsAll stmts
  | .expr value _ => value.functions

def Stmt.functions? : Option Stmt → List Function
  | some st => st.functions
  | none => []

def Stmt.functionsAll : List Stmt → List Function
  | [] => []
  | st :: stmts => st.functions ++ Stmt.functionsAll stmts

def Stmt.functionsAll? : Option (List Stmt) → List Function
  | some stmts => Stmt.functionsAll stmts
  | none => []

def Declarator.functionsAll : List Declarator → List Function
  | [] => []
  | ⟨_, init, _⟩ :: ds => Expr.functions? init ++ Declarator.functionsAll ds

def Handler.functions? : Option Handler → List Function
  | some ⟨_, body⟩ => Stmt.functionsAll body
  | none => []

end

end ScriptHost
