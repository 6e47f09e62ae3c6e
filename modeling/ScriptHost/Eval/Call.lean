import ScriptHost.Eval.Hoist
import ScriptHost.Eval.Native
import ScriptHost.Eval.Stmt
import ScriptHost.Syntax.Script

/-!
This module contains the calls of functions and the runs of scripts, each of which has a frame on the call
stack.
-/

namespace ScriptHost

/-- A scope for a call: the name of the function comes before its parameters. -/
def Heap.newCallScope (callee : ObjectId) (f : Function) (parent : Option ObjectId)
    (args : List Value) : HeapM ObjectId := do
  let scope ← allocate (.scope parent #[])
  match f.name with
  | some name => declare scope name (.object callee) true
  | none => pure ()
  let values := args ++ List.replicate (f.params.length - args.length) .undefined
  (f.params.zip values).forM fun (param, v) => declare scope param v true
  return scope

namespace Eval

variable {α : Type}

/-- Run in one more frame. If the stack is full, this shows at `loc`. -/
def inFrame (frame : Frame) (loc : Location) (x : Run α) : Run α := do
  let stack := (← Run.get).stack
  let depth := stack.depth
  match stack.push? frame with
  | some stack =>
    Run.modify fun s => { s with stack := stack }
    Run.ensuring x fun s => { s with stack := s.stack.truncate depth }
  | none => Run.raise .stackOverflow loc

/-- Execute the statements of a function up to the first one that returns, and give its value. -/
def untilReturn (ev : Evaluator) : List Stmt → Run Value
  | [] => return .undefined
  | stmt :: stmts => do
    match ← ev.stmt stmt with
    | .return v => return v
    | _ => untilReturn ev stmts

def functionBody (ev : Evaluator) : FunctionBody → Run Value
  | .expr value => ev.expr value
  | .block stmts => do
    hoist stmts
    untilReturn ev stmts

/-- Call a function that a script has made. -/
def callClosure (ev : Evaluator) (callee : ObjectId) (f : Function) (parent : Option ObjectId)
    (script : ScriptId) (args : List Value) (callSite : Option Location) : Run Value := do
  let loc := callSite.getD f.loc
  let scope ← Run.heap loc (Heap.newCallScope callee f parent args)
  inFrame ⟨f.name.getD "", script, some scope, callSite⟩ loc (functionBody ev f.body)

/-- Call an object. -/
def call (ev : Evaluator) (callee : ObjectId) (args : List Value) (callSite : Option Location) :
    Run Value := do
  match (← Run.get).heap.content callee with
  | .native builtin => native ev builtin args (callSite.getD {})
  | .closure f parent script => callClosure ev callee f parent script args callSite
  | _ => Run.raise (.notCallable (← Run.display (.object callee))) (callSite.getD {})

/-- Execute the statements of a script and give the value of the last expression among them. -/
def program (ev : Evaluator) (stmts : List Stmt) : Run Value := do
  hoist stmts
  stmts.foldlM (fun last st => do
    match st with
    | .expr value _ => ev.expr value
    | st =>
      discard (ev.stmt st)
      return last) .undefined

/-- Register a text as a script and run it at top level. -/
def script (ev : Evaluator) (source origin : String) (callSite : Option Location) : Run Value := do
  let id : ScriptId := ⟨(← Run.get).scripts.size⟩
  Run.modify fun s => { s with scripts := s.scripts.push ⟨origin, source⟩ }
  match parse source with
  | .error e =>
    Run.throw ⟨⟨.malformed e.fault.message, e.loc⟩, some ⟨id, e.loc⟩, none⟩
  | .ok stmts =>
    inFrame { script := id, callSite } (callSite.getD {}) (program ev stmts)

end Eval
end ScriptHost
