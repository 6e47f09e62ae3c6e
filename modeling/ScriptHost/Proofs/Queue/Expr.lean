import ScriptHost.Eval.Expr
import ScriptHost.Proofs.Queue.Access

/-!
This module contains that the rules for expressions are traced if the evaluation of their parts is.
-/

namespace ScriptHost

/-- An evaluation is traced if all that it does is. -/
structure Evaluator.Traced (ev : Gate → Evaluator) : Prop where
  expr : ∀ e, Run.Traced fun gate => (ev gate).expr e
  stmt : ∀ st, Run.Traced fun gate => (ev gate).stmt st
  call : ∀ callee args callSite, Run.Traced fun gate => (ev gate).call callee args callSite
  script : ∀ source origin callSite, Run.Traced fun gate => (ev gate).script source origin callSite

namespace Place

open Run

theorem traced_read (p : Place) (loc : Location) : Traced fun _ => p.read loc := by
  cases p with
  | named name => exact traced_readVariable name loc
  | property base key => exact traced_getMember base key loc
  | element base key => exact traced_getIndex base key loc

theorem traced_write (p : Place) (v : Value) (loc : Location) : Traced fun _ => p.write v loc := by
  cases p with
  | named name => exact traced_writeVariable name v loc
  | property base key => exact traced_setMember base key v loc
  | element base key => exact traced_setIndex base key v loc

end Place

namespace Eval

open Run

theorem traced_closure (f : Function) : Traced fun _ => closure f :=
  traced_get.bind fun _ => (traced_heap f.loc _).bind fun _ => traced_pure _

variable {ev : Gate → Evaluator} (hev : Evaluator.Traced ev)
include hev

theorem traced_place (target : Expr) : Traced fun gate => place (ev gate) target := by
  cases target with
  | name => exact traced_pure _
  | member object key => exact (hev.expr object).bind fun _ => traced_pure _
  | index object key => exact (hev.expr object).bind fun _ => (hev.expr key).bind fun _ => traced_pure _
  | _ => exact traced_raise _ _

theorem traced_binaryExpr (op : BinaryOp) (left right : Expr)
    : Traced fun gate => binaryExpr (ev gate) op left right := by
  apply (hev.expr left).bind
  intro a
  cases op with
  | and => exact .ite (hev.expr right) (traced_pure a)
  | or => exact .ite (traced_pure a) (hev.expr right)
  | _ => exact (hev.expr right).bind fun b => traced_binary _ a b

theorem traced_typeofExpr (operand : Expr) : Traced fun gate => typeofExpr (ev gate) operand := by
  have hoperand : Traced fun gate => typeofOperand (ev gate) operand := by
    cases operand with
    | name => exact traced_get.bind fun _ => traced_pure _
    | _ => exact hev.expr _
  exact hoperand.bind fun _ => traced_get.bind fun _ => traced_pure _

theorem traced_update (target : Expr) (step : Double) (givesNew : Bool)
    : Traced fun gate => update (ev gate) target step givesNew := by
  apply (traced_place hev target).bind
  intro place
  apply (place.traced_read target.loc).bind
  intro v
  apply (traced_toNumber v).bind
  intro old
  exact (place.traced_write _ target.loc).bind fun _ => traced_pure _

theorem traced_unaryExpr (op : UnaryOp) (operand : Expr)
    : Traced fun gate => unaryExpr (ev gate) op operand := by
  cases op with
  | neg | plus => exact (hev.expr operand).bind fun v => (traced_toNumber v).bind fun _ => traced_pure _
  | not => exact (hev.expr operand).bind fun _ => traced_pure _
  | typeof => exact traced_typeofExpr hev operand
  | preInc | preDec | postInc | postDec => exact traced_update hev operand _ _

theorem traced_assign (target value : Expr) : Traced fun gate => assign (ev gate) target value := by
  apply (traced_place hev target).bind
  intro place
  apply (hev.expr value).bind
  intro v
  exact (place.traced_write v target.loc).bind fun _ => traced_pure v

theorem traced_compoundAssign (op : BinaryOp) (target value : Expr)
    : Traced fun gate => compoundAssign (ev gate) op target value := by
  apply (traced_place hev target).bind
  intro place
  apply (place.traced_read target.loc).bind
  intro old
  apply (hev.expr value).bind
  intro operand
  apply (traced_binary op old operand).bind
  intro v
  exact (place.traced_write v target.loc).bind fun _ => traced_pure v

theorem traced_objectExpr (properties : List Property) (loc : Location)
    : Traced fun gate => objectExpr (ev gate) properties loc := by
  apply (traced_heap loc _).bind
  intro id
  apply Traced.bind
  . apply traced_forM
    intro property
    exact (hev.expr property.value).bind fun v => traced_heap loc _
  . intro _
    exact traced_pure _

theorem traced_callExpr (callee : Expr) (args : List Expr) (loc : Location)
    : Traced fun gate => callExpr (ev gate) callee args loc := by
  apply (hev.expr callee).bind
  intro f
  apply (traced_mapM hev.expr).bind
  intro values
  apply traced_get.bind
  intro s
  cases s.callable? f with
  | some id => exact hev.call id values (some loc)
  | none => exact traced_raise _ loc

theorem traced_exprRule (e : Expr) : Traced fun gate => exprRule (ev gate) e := by
  cases e with
  | number | string | bool | null | undefined => exact traced_pure _
  | name name loc => exact traced_readVariable name loc
  | array elements loc =>
    exact (traced_mapM hev.expr).bind fun _ => (traced_heap loc _).bind fun _ => traced_pure _
  | object properties loc => exact traced_objectExpr hev properties loc
  | function f => exact traced_closure f
  | binary op left right => exact traced_binaryExpr hev op left right
  | unary op operand => exact traced_unaryExpr hev op operand
  | assign target value => exact traced_assign hev target value
  | compound op target value => exact traced_compoundAssign hev op target value
  | conditional condition whenTrue whenFalse =>
    exact (hev.expr condition).bind fun _ => .ite (hev.expr whenTrue) (hev.expr whenFalse)
  | call callee args loc => exact traced_callExpr hev callee args loc
  | member object property loc => exact (hev.expr object).bind fun base => traced_getMember base property loc
  | index object key loc =>
    exact (hev.expr object).bind fun base => (hev.expr key).bind fun k => traced_getIndex base k loc

theorem traced_expr (e : Expr) : Traced fun gate => expr (ev gate) e := by
  apply traced_get.bind
  intro s
  apply traced_env.bind
  intro env
  apply Traced.ite (traced_raise _ e.loc)
  exact traced_moved (traced_exprRule hev e) (fun _ => ⟨rfl, rfl⟩) fun _ => ⟨rfl, rfl⟩

end Eval
end ScriptHost
