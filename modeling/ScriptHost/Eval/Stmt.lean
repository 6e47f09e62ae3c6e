import ScriptHost.Eval.Basic

/-!
This module contains the rules for statements.
-/

namespace ScriptHost
namespace Eval

/-- Execute statements in order, up to the first one that does not end normally. -/
def block (ev : Evaluator) : List Stmt → Run Completion
  | [] => return .normal
  | stmt :: stmts => do
    match ← ev.stmt stmt with
    | .normal => block ev stmts
    | completion => return completion

/-- Execute statements, if there are any. -/
def block? (ev : Evaluator) : Option (List Stmt) → Run Completion
  | some stmts => block ev stmts
  | none => return .normal

/-- A name of `var` is bound already when its declaration is reached. -/
def declarator (ev : Evaluator) (kind : DeclareKind) (d : Declarator) : Run Unit := do
  match kind, d.init with
  | .var, some init => Run.writeVariable d.name (← ev.expr init) d.loc
  | .var, none => return
  | kind, some init => Run.declare kind d.name (← ev.expr init) d.loc
  | kind, none => Run.declare kind d.name .undefined d.loc

def whileLoop (ev : Evaluator) (condition : Expr) (body : List Stmt) : Run Completion :=
  .untilSome do
    if (← ev.expr condition).truthy then
      return (← block ev body).loopEnd?
    else
      return some .normal

def doWhileLoop (ev : Evaluator) (body : List Stmt) (condition : Expr) : Run Completion :=
  .untilSome do
    match (← block ev body).loopEnd? with
    | some completion => return some completion
    | none =>
      if (← ev.expr condition).truthy then return none else return some .normal

/-- Whether a condition holds, as one does that is left out. -/
def holds (ev : Evaluator) : Option Expr → Run Bool
  | some condition => return (← ev.expr condition).truthy
  | none => return true

/-- The turns of a `for` loop, which goes on as long as it has no condition that fails. -/
def forLoop (ev : Evaluator) (condition next : Option Expr) (body : List Stmt) : Run Completion :=
  .untilSome do
    if ← holds ev condition then
      match (← block ev body).loopEnd? with
      | some completion => return some completion
      | none =>
        if let some next := next then
          discard (ev.expr next)
        return none
    else
      return some .normal

/-- Run with another scope in the running frame. -/
def inScope (scope : ObjectId) (x : Run Completion) : Run Completion := do
  let outer := (← Run.get).scope?
  let enter (scope : Option ObjectId) (s : Session) : Session :=
    { s with stack := s.stack.modifyCurrent fun frame => { frame with scope := scope } }
  Run.modify (enter (some scope))
  Run.ensuring x (enter outer)

/-- Handle an exception. The parameter of the handler has a scope of its own. -/
def handle (ev : Evaluator) (handler : Handler) (e : Exception) : Run Completion := do
  let v ← Run.exceptionValue e
  match handler.param with
  | none => block ev handler.body
  | some param =>
    let content := .scope (← Run.get).scope? #[⟨param, v, true⟩]
    let scope ← Run.heap e.fault.loc (Heap.allocate content)
    inScope scope (block ev handler.body)

/-- The statements of a `try` with its handler. -/
def guarded (ev : Evaluator) (stmts : List Stmt) (handler : Option Handler) :
    Run Completion := do
  let depth := (← Run.get).stack.depth
  match ← Run.attempt (block ev stmts), handler with
  | .error e, some handler =>
    Run.modify fun s => { s with stack := s.stack.truncate depth }
    handle ev handler e
  | result, _ => Run.ofExcept result

/-- The finalizer is executed in any case. It decides how the statement ends unless it ends normally. -/
def tryStmt (ev : Evaluator) (stmts : List Stmt) (handler : Option Handler)
    (finalizer : Option (List Stmt)) : Run Completion := do
  let result ← Run.attempt (guarded ev stmts handler)
  match ← block? ev finalizer with
  | .normal => Run.ofExcept result
  | completion => return completion

/-- The rule for each kind of statement. Function declarations have taken effect before. -/
def stmt (ev : Evaluator) (st : Stmt) : Run Completion := do
  match st with
  | .declare kind declarators _ =>
    declarators.forM (declarator ev kind)
    return .normal
  | .function _ | .empty _ => return .normal
  | .return value _ =>
    match value with
    | some value => return .return (← ev.expr value)
    | none => return .return .undefined
  | .if condition thenBranch elseBranch _ =>
    if (← ev.expr condition).truthy then block ev thenBranch else block? ev elseBranch
  | .while condition body _ => whileLoop ev condition body
  | .doWhile body condition _ => doWhileLoop ev body condition
  | .for init condition next body _ =>
    if let some init := init then
      discard (ev.stmt init)
    forLoop ev condition next body
  | .break _ => return .break
  | .continue _ => return .continue
  | .throw value loc => Run.throwValue (← ev.expr value) loc
  | .try stmts handler finalizer _ => tryStmt ev stmts handler finalizer
  | .block stmts _ => block ev stmts
  | .expr value _ =>
    discard (ev.expr value)
    return .normal

end Eval
end ScriptHost
