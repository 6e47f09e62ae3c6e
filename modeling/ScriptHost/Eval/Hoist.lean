import ScriptHost.Eval.Basic

/-!
This module contains the declarations that take effect before the first statement of a body: all names
of `var` and all function declarations, wherever they stand outside nested functions.
-/

namespace ScriptHost

structure Hoisted where
  /-- The names of `var`, in order and with repetitions. -/
  vars : List (String × Location) := []
  functions : List Function := []

namespace Hoisted

instance : Append Hoisted where
  append a b := ⟨a.vars ++ b.vars, a.functions ++ b.functions⟩

end Hoisted

mutual

/-- The declarations in a statement. -/
def Stmt.hoisted : Stmt → Hoisted
  | .declare .var declarators _ => { vars := declarators.map fun d => (d.name, d.loc) }
  | .function f => { functions := [f] }
  | .if _ thenBranch elseBranch _ => hoistedAll thenBranch ++ hoistedAll? elseBranch
  | .while _ body _ => hoistedAll body
  | .doWhile body _ _ => hoistedAll body
  | .for init _ _ body _ => hoistedInit init ++ hoistedAll body
  | .try stmts handler finalizer _ =>
    hoistedAll stmts ++ hoistedHandler handler ++ hoistedAll? finalizer
  | .block stmts _ => hoistedAll stmts
  | _ => {}

/-- The declarations in the initializer of a loop. -/
def Stmt.hoistedInit : Option Stmt → Hoisted
  | some init => init.hoisted
  | none => {}

def Stmt.hoistedHandler : Option Handler → Hoisted
  | some ⟨_, body⟩ => hoistedAll body
  | none => {}

def Stmt.hoistedAll? : Option (List Stmt) → Hoisted
  | some body => hoistedAll body
  | none => {}

/-- The declarations in a body. -/
def Stmt.hoistedAll : List Stmt → Hoisted
  | [] => {}
  | stmt :: stmts => stmt.hoisted ++ hoistedAll stmts

end

namespace Eval

/-- Make the declarations of a body. -/
def hoist (body : List Stmt) : Run Unit := do
  let declarations := Stmt.hoistedAll body
  declarations.vars.forM fun (name, loc) => Run.declareVar name loc
  declarations.functions.forM fun f => do
    let v ← closure f
    match f.name with
    | some name => Run.declare .var name v f.loc
    | none => return

end Eval
end ScriptHost
