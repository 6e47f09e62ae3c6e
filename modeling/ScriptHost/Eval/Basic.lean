import ScriptHost.Session.Operator
import ScriptHost.Session.Variable

/-!
This module contains what the evaluation of scripts is made of. The rules for a node take the evaluation
of its parts, of functions and of other scripts from an `Evaluator`, so no rule refers to itself.
-/

namespace ScriptHost

/-- How a statement ends that throws nothing. -/
inductive Completion where
  | normal
  | break
  | continue
  | return (value : Value)
deriving DecidableEq

/-- How a loop ends after its body, if it does. -/
def Completion.loopEnd? : Completion → Option Completion
  | normal | .continue => none
  | .break => some normal
  | .return v => some (.return v)

/-- The evaluation of everything that takes time of its own. -/
structure Evaluator where
  expr : Expr → Run Value
  stmt : Stmt → Run Completion
  /-- Call a function; one that no script calls has no call site. -/
  call : (callee : ObjectId) → (args : List Value) → (callSite : Option Location) → Run Value
  /-- Run a script and give the value of its last expression statement. -/
  script : (source origin : String) → (callSite : Option Location) → Run Value

namespace Session

/-- The function that a value is. -/
def callable? (s : Session) (v : Value) : Option ObjectId :=
  v.object?.filter s.heap.isCallable

end Session

namespace Eval

/-- A function that sees the variables of the running scope. -/
def closure (f : Function) : Run Value := do
  let s ← Run.get
  let content := .closure f s.scope? (s.currentScript?.getD ⟨0⟩)
  return .object (← Run.heap f.loc (Heap.allocate content))

end Eval
end ScriptHost
