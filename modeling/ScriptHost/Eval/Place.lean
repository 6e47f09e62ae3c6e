import ScriptHost.Eval.Basic
import ScriptHost.Syntax.Error

/-!
This module contains the places that scripts assign to. The expressions in a target are evaluated once,
however often the place is used afterwards.
-/

namespace ScriptHost

inductive Place where
  | named (name : String)
  | property (base : Value) (key : String)
  | element (base key : Value)

namespace Place

/-- The value at a place. -/
def read (p : Place) (loc : Location) : Run Value :=
  match p with
  | named name => Run.readVariable name loc
  | property base key => Run.getMember base key loc
  | element base key => Run.getIndex base key loc

def write (p : Place) (value : Value) (loc : Location) : Run Unit :=
  match p with
  | named name => Run.writeVariable name value loc
  | property base key => Run.setMember base key value loc
  | element base key => Run.setIndex base key value loc

end Place

namespace Eval

/-- The place that a target stands for. -/
def place (ev : Evaluator) (target : Expr) : Run Place := do
  match target with
  | .name name _ => return .named name
  | .member object key _ => return .property (← ev.expr object) key
  | .index object key _ =>
    let base ← ev.expr object
    return .element base (← ev.expr key)
  | target => Run.raise (.malformed SyntaxFault.invalidAssignmentTarget.message) target.loc

end Eval
end ScriptHost
