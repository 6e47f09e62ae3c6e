import ScriptHost.Location
import ScriptHost.Double.Basic

/-!
This module contains the syntax trees of scripts. Every node knows its location, which for an operator
is that of the operator itself.
-/

namespace ScriptHost

inductive DeclareKind where
  | var | let | const
deriving DecidableEq

inductive BinaryOp where
  | add | sub | mul | div | mod
  | eq | ne | strictEq | strictNe | lt | le | gt | ge
  | and | or
deriving DecidableEq

inductive UnaryOp where
  | neg | plus | not | typeof
  | preInc | preDec | postInc | postDec
deriving DecidableEq

/-- Whether the operator stores a new value in its operand. -/
def UnaryOp.isUpdate : UnaryOp → Bool
  | preInc | preDec | postInc | postDec => true
  | _ => false

mutual

inductive Expr where
  | number (value : Double) (loc : Location)
  | string (value : String) (loc : Location)
  | bool (value : Bool) (loc : Location)
  | null (loc : Location)
  | undefined (loc : Location)
  | name (name : String) (loc : Location)
  | array (elements : List Expr) (loc : Location)
  | object (properties : List Property) (loc : Location)
  | function (f : Function)
  | binary (op : BinaryOp) (left right : Expr) (loc : Location)
  | unary (op : UnaryOp) (operand : Expr) (loc : Location)
  | assign (target value : Expr) (loc : Location)
  | compound (op : BinaryOp) (target value : Expr) (loc : Location)
  | conditional (condition whenTrue whenFalse : Expr) (loc : Location)
  /-- The location is that of the called name or member. -/
  | call (callee : Expr) (args : List Expr) (loc : Location)
  /-- The location is that of the property name. -/
  | member (object : Expr) (property : String) (loc : Location)
  /-- The location is that of the index in its brackets. -/
  | index (object key : Expr) (loc : Location)

/-- An entry `key: value` of an object literal. -/
structure Property where
  key : String
  value : Expr

/-- A function literal; its location is its whole text. -/
structure Function where
  name : Option String
  params : List String
  body : FunctionBody
  loc : Location

inductive FunctionBody where
  | block (statements : List Stmt)
  /-- The body of an arrow function without braces. -/
  | expr (value : Expr)

inductive Stmt where
  | declare (kind : DeclareKind) (declarators : List Declarator) (loc : Location)
  | function (f : Function)
  | return (value : Option Expr) (loc : Location)
  | if (condition : Expr) (thenBranch : List Stmt) (elseBranch : Option (List Stmt))
      (loc : Location)
  | while (condition : Expr) (body : List Stmt) (loc : Location)
  | doWhile (body : List Stmt) (condition : Expr) (loc : Location)
  | for (init : Option Stmt) (condition update : Option Expr) (body : List Stmt)
      (loc : Location)
  | break (loc : Location)
  | continue (loc : Location)
  | throw (value : Expr) (loc : Location)
  | try (block : List Stmt) (handler : Option Handler) (finalizer : Option (List Stmt))
      (loc : Location)
  | block (statements : List Stmt) (loc : Location)
  | empty (loc : Location)
  | expr (value : Expr) (loc : Location)

/-- An entry `name = init` of a declaration; the location is that of the name. -/
structure Declarator where
  name : String
  init : Option Expr
  loc : Location

/-- A clause `catch (param) body`. -/
structure Handler where
  param : Option String
  body : List Stmt

end

namespace Expr

def loc : Expr → Location
  | number _ loc | string _ loc | bool _ loc | null loc | undefined loc | name _ loc
  | array _ loc | object _ loc | binary _ _ _ loc | unary _ _ loc | assign _ _ loc
  | compound _ _ _ loc | conditional _ _ _ loc | call _ _ loc | member _ _ loc | index _ _ loc =>
    loc
  | function f => f.loc

/-- Whether an expression may stand for a place that is assigned to. -/
def isAssignable : Expr → Bool
  | name .. | member .. | index .. => true
  | _ => false

end Expr

def Stmt.loc : Stmt → Location
  | declare _ _ loc | .return _ loc | .if _ _ _ loc | .while _ _ loc | doWhile _ _ loc
  | .for _ _ _ _ loc | .break loc | .continue loc | .throw _ loc | .try _ _ _ loc | block _ loc
  | empty loc | expr _ loc => loc
  | function f => f.loc

end ScriptHost
