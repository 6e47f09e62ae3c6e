import ScriptHost.Eval.Stmt
import ScriptHost.Proofs.Heap.Operation

/-!
This module contains the equations for runs: what a sequence of two computations comes to, and an
operation on the heap, and the entry to a handler apart from its body.
-/

namespace ScriptHost

instance : LawfulMonad Run :=
  LawfulMonad.mk' Run
    (fun x => by
      funext env s
      change Run.bind x (fun a => Run.pure a) env s = x env s
      unfold Run.bind
      cases x env s <;> rfl)
    (fun _ _ => rfl)
    (fun x f g => by
      funext env s
      change Run.bind (Run.bind x f) g env s = Run.bind x (fun a => Run.bind (f a) g) env s
      unfold Run.bind
      cases x env s <;> rfl)

namespace Eval

/-- What a handler makes before its first statement: the value it sees and the scope of its parameter. -/
def enter (handler : Handler) (caught : Exception) : Run (Option ObjectId) := do
  let v ← Run.exceptionValue caught
  match handler.param with
  | none => return none
  | some param =>
    let content := .scope (← Run.get).scope? #[⟨param, v, true⟩]
    return some (← Run.heap caught.fault.loc (Heap.allocate content))

def handlerBody (ev : Evaluator) (handler : Handler) : Option ObjectId → Run Completion
  | none => block ev handler.body
  | some scope => inScope scope (block ev handler.body)

theorem handle_eq (ev : Evaluator) (handler : Handler) (caught : Exception)
    : handle ev handler caught = enter handler caught >>= handlerBody ev handler := by
  unfold handle enter
  rw [bind_assoc]
  congr
  funext v
  cases handler.param with
  | none => rfl
  | some param =>
    simp only [bind_assoc, pure_bind]
    rfl

end Eval

namespace Run

variable {α β : Type}

theorem get_bind (f : Session → Run α) (env : Env) (s : Session) : (get >>= f) env s = f s env s :=
  rfl

theorem bind_done {x : Run α} {env : Env} {s s' : Session} {a : α} (hx : x env s = .done a s')
    (f : α → Run β)
    : (x >>= f) env s = f a env s' := by
  change Run.bind x f env s = _
  unfold Run.bind
  rw [hx]

theorem bind_thrown {x : Run α} {env : Env} {s s' : Session} {e : Exception}
    (hx : x env s = .thrown e s') (f : α → Run β)
    : (x >>= f) env s = .thrown e s' := by
  change Run.bind x f env s = _
  unfold Run.bind
  rw [hx]

theorem bind_stopped {x : Run α} {env : Env} {s : Session} {why : Stop}
    (hx : x env s = .stopped why) (f : α → Run β)
    : (x >>= f) env s = .stopped why := by
  change Run.bind x f env s = _
  unfold Run.bind
  rw [hx]

theorem attempt_eq (x : Run α) (env : Env) (s : Session)
    : attempt x env s = match x env s with
      | .done a s' => .done (.ok a) s'
      | .thrown e s' => .done (.error e) s'
      | .stopped why => .stopped why := rfl

theorem onHeap_eq (op : HeapM α) (env : Env) (s : Session)
    : onHeap op env s
        = .done (Heap.exec op s.heap).1 { s with heap := (Heap.exec op s.heap).2 } := rfl

theorem exceptionValue_thrown {caught : Exception} {v : Value} {text : String}
    (hcause : caught.fault.cause = .thrown v text)
    : exceptionValue caught = pure v := by
  unfold exceptionValue
  rw [hcause]

theorem exceptionValue_failure {caught : Exception}
    (hcause : ∀ v text, caught.fault.cause ≠ .thrown v text)
    : exceptionValue caught
        =
      heap caught.fault.loc (Heap.newError (caught.fault.cause.errorClass?.getD .error)
        caught.fault.cause.message caught.trace) >>= fun id => pure (.object id) := by
  unfold exceptionValue
  split
  . next v text hthrown => exact absurd hthrown (hcause v text)
  . rfl

end Run
end ScriptHost
