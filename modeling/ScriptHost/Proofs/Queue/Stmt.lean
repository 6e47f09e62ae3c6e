import ScriptHost.Eval.Hoist
import ScriptHost.Eval.Stmt
import ScriptHost.Proofs.Queue.Expr

/-!
This module contains that the rules for statements are traced if the evaluation of their parts is.
-/

namespace ScriptHost.Eval

open Run

theorem traced_hoist (body : List Stmt) : Traced fun _ => hoist body := by
  apply Traced.bind
  . apply traced_forM
    intro v
    exact traced_declareVar v.1 v.2
  . intro _
    apply traced_forM
    intro f
    apply (traced_closure f).bind
    intro v
    cases f.name with
    | some name => exact traced_declare .var name v f.loc
    | none => exact traced_pure _

variable {ev : Gate → Evaluator} (hev : Evaluator.Traced ev)
include hev

theorem traced_block (stmts : List Stmt) : Traced fun gate => block (ev gate) stmts := by
  induction stmts with
  | nil => exact traced_pure _
  | cons st stmts ih =>
    apply (hev.stmt st).bind
    intro completion
    cases completion with
    | normal => exact ih
    | _ => exact traced_pure _

theorem traced_block? (stmts? : Option (List Stmt)) : Traced fun gate => block? (ev gate) stmts? := by
  cases stmts? with
  | some stmts => exact traced_block hev stmts
  | none => exact traced_pure _

theorem traced_declarator (kind : DeclareKind) (d : Declarator)
    : Traced fun gate => declarator (ev gate) kind d := by
  unfold declarator
  cases d.init with
  | some init =>
    cases kind with
    | var => exact (hev.expr init).bind fun v => traced_writeVariable d.name v d.loc
    | _ => exact (hev.expr init).bind fun v => traced_declare _ d.name v d.loc
  | none =>
    cases kind with
    | var => exact traced_pure _
    | _ => exact traced_declare _ d.name _ d.loc

theorem traced_whileLoop (condition : Expr) (body : List Stmt)
    : Traced fun gate => whileLoop (ev gate) condition body := by
  apply traced_untilSome
  apply (hev.expr condition).bind
  intro v
  exact .ite ((traced_block hev body).bind fun _ => traced_pure _) (traced_pure _)

theorem traced_doWhileLoop (body : List Stmt) (condition : Expr)
    : Traced fun gate => doWhileLoop (ev gate) body condition := by
  apply traced_untilSome
  apply (traced_block hev body).bind
  intro completion
  cases completion.loopEnd? with
  | some completion => exact traced_pure _
  | none => exact (hev.expr condition).bind fun _ => .ite (traced_pure _) (traced_pure _)

theorem traced_forLoop (condition next : Option Expr) (body : List Stmt)
    : Traced fun gate => forLoop (ev gate) condition next body := by
  have hholds : Traced fun gate => holds (ev gate) condition := by
    cases condition with
    | some condition => exact (hev.expr condition).bind fun _ => traced_pure _
    | none => exact traced_pure _
  apply traced_untilSome
  apply hholds.bind
  intro goesOn
  refine .ite ?_ (traced_pure _)
  apply (traced_block hev body).bind
  intro completion
  cases completion.loopEnd? with
  | some completion => exact traced_pure _
  | none =>
    cases next with
    | some next => exact (hev.expr next).discard.bind fun _ => traced_pure _
    | none => exact traced_pure _

theorem traced_handle (handler : Handler) (e : Exception)
    : Traced fun gate => handle (ev gate) handler e := by
  apply (traced_exceptionValue e).bind
  intro v
  cases handler.param with
  | none => exact traced_block hev handler.body
  | some param =>
    apply traced_get.bind
    intro s
    apply (traced_heap e.fault.loc _).bind
    intro scope
    apply traced_get.bind
    intro s
    exact traced_moved (traced_block hev handler.body) (fun _ => ⟨rfl, rfl⟩) fun _ => ⟨rfl, rfl⟩

theorem traced_guarded (stmts : List Stmt) (handler : Option Handler)
    : Traced fun gate => guarded (ev gate) stmts handler := by
  apply traced_get.bind
  intro s
  apply (traced_block hev stmts).attempt.bind
  intro result
  cases result with
  | ok completion => exact traced_ofExcept _
  | error e =>
    cases handler with
    | none => exact traced_ofExcept _
    | some handler =>
      refine .bind (traced_modify ?_) fun _ => traced_handle hev handler e
      exact fun _ => ⟨rfl, rfl⟩

theorem traced_tryStmt (stmts : List Stmt) (handler : Option Handler) (finalizer : Option (List Stmt))
    : Traced fun gate => tryStmt (ev gate) stmts handler finalizer := by
  apply (traced_guarded hev stmts handler).attempt.bind
  intro result
  apply (traced_block? hev finalizer).bind
  intro completion
  cases completion with
  | normal => exact traced_ofExcept result
  | _ => exact traced_pure _

theorem traced_stmt (st : Stmt) : Traced fun gate => stmt (ev gate) st := by
  cases st with
  | declare kind declarators =>
    exact (traced_forM fun d => traced_declarator hev kind d).bind fun _ => traced_pure _
  | function | empty | «break» | «continue» => exact traced_pure _
  | «return» value =>
    cases value with
    | some value => exact (hev.expr value).bind fun _ => traced_pure _
    | none => exact traced_pure _
  | «if» condition thenBranch elseBranch =>
    exact (hev.expr condition).bind fun _ =>
      .ite (traced_block hev thenBranch) (traced_block? hev elseBranch)
  | «while» condition body => exact traced_whileLoop hev condition body
  | doWhile body condition => exact traced_doWhileLoop hev body condition
  | «for» init condition next body =>
    cases init with
    | some init => exact (hev.stmt init).discard.bind fun _ => traced_forLoop hev condition next body
    | none => exact traced_forLoop hev condition next body
  | throw value loc => exact (hev.expr value).bind fun v => traced_throwValue v loc
  | «try» stmts handler finalizer => exact traced_tryStmt hev stmts handler finalizer
  | block stmts => exact traced_block hev stmts
  | expr value => exact (hev.expr value).discard.bind fun _ => traced_pure _

end ScriptHost.Eval
