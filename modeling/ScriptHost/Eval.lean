import ScriptHost.Eval.Call
import ScriptHost.Eval.Expr

/-!
This module contains the evaluation of scripts. It ends without an answer when expressions, statements,
calls and scripts stand inside each other deeper than its fuel.
-/

namespace ScriptHost

/-- The evaluation that goes `fuel` rules deep. -/
def evaluator : (fuel : Nat) → Evaluator
  | 0 => {
      expr := fun _ => .stop .outOfFuel
      stmt := fun _ => .stop .outOfFuel
      call := fun _ _ _ => .stop .outOfFuel
      script := fun _ _ _ => .stop .outOfFuel
    }
  | fuel + 1 => {
      expr := fun e env s => Eval.expr (evaluator fuel) e env s
      stmt := fun st env s => Eval.stmt (evaluator fuel) st env s
      call := fun callee args callSite env s =>
        Eval.call (evaluator fuel) callee args callSite env s
      script := fun source origin callSite env s =>
        Eval.script (evaluator fuel) source origin callSite env s
    }

namespace Run

/-- Call a function from outside of all scripts. -/
def call (callee : ObjectId) (args : List Value) : Run Value := do
  (evaluator (← env).fuel).call callee args none

/-- Run a script. -/
def script (source origin : String) (callSite : Option Location) : Run Value := do
  (evaluator (← env).fuel).script source origin callSite

end Run
end ScriptHost
