import ScriptHost.Proofs.Session.Closures

/-!
This module contains an evaluation that stops where the usual one would lose a jump, and in all its cases for
code that the grammar does not give. It makes no difference for scripts, nor for the functions that they
make: no jump is lost, and those cases do not occur. That statements and expressions do not stand in each
other's places is in the types of the trees.
-/

namespace ScriptHost

namespace Eval

section

variable (why : Stop) (ev : Evaluator)

/-- The place that a target stands for, which has to be one that stands for a place. -/
def strictPlace (target : Expr) : Run Place :=
  match target with
  | .name .. | .member .. | .index .. => place ev target
  | _ => .stop why

/-- An operator on two values, which has to be one that evaluates both of its operands. -/
def strictBinary (op : BinaryOp) (a b : Value) : Run Value :=
  match op with
  | .and | .or => .stop why
  | op => Run.binary op a b

def strictBinaryExpr (op : BinaryOp) (left right : Expr) : Run Value := do
  let a ← ev.expr left
  match op with
  | .and => if a.truthy then ev.expr right else return a
  | .or => if a.truthy then return a else ev.expr right
  | op =>
    let b ← ev.expr right
    strictBinary why op a b

def strictUpdate (target : Expr) (step : Double) (givesNew : Bool) : Run Value := do
  let place ← strictPlace why ev target
  let old ← Run.toNumber (← place.read target.loc)
  let new := old.add step
  place.write (.number new) target.loc
  return .number (if givesNew then new else old)

def strictUnaryExpr (op : UnaryOp) (operand : Expr) : Run Value :=
  match op with
  | .preInc => strictUpdate why ev operand (.ofNat 1) true
  | .preDec => strictUpdate why ev operand (Double.ofNat 1).neg true
  | .postInc => strictUpdate why ev operand (.ofNat 1) false
  | .postDec => strictUpdate why ev operand (Double.ofNat 1).neg false
  | op => unaryExpr ev op operand

def strictAssign (target value : Expr) : Run Value := do
  let place ← strictPlace why ev target
  let v ← ev.expr value
  place.write v target.loc
  return v

def strictCompoundAssign (op : BinaryOp) (target value : Expr) : Run Value := do
  let place ← strictPlace why ev target
  let old ← place.read target.loc
  let operand ← ev.expr value
  let v ← strictBinary why op old operand
  place.write v target.loc
  return v

def strictExprRule (e : Expr) : Run Value :=
  match e with
  | .binary op left right _ => strictBinaryExpr why ev op left right
  | .unary op operand _ => strictUnaryExpr why ev op operand
  | .assign target value _ => strictAssign why ev target value
  | .compound op target value _ => strictCompoundAssign why ev op target value
  | e => exprRule ev e

/-- Call an object, which has to be one that can be called. -/
def strictCallWith (body : FunctionBody → Run Value) (callee : ObjectId) (args : List Value)
    (callSite : Option Location) : Run Value := do
  match (← Run.get).heap.content callee with
  | .native _ | .closure .. => callWith body ev callee args callSite
  | _ => .stop why

/-- A statement of a script has to end normally. -/
def checkScript : Completion → Run PUnit
  | .normal => return
  | _ => .stop why

/-- A statement of a function has to end normally, or to return. -/
def checkFunction : Completion → Run PUnit
  | .normal | .return _ => return
  | _ => .stop why

end

end Eval

/-- The evaluation that goes `fuel` rules deep and stops rather than lose a jump. -/
def strictEvaluator (why : Stop) : (fuel : Nat) → Evaluator
  | 0 => evaluator 0
  | fuel + 1 =>
    let ev := strictEvaluator why fuel
    {
      expr := fun e => Eval.nested e.loc (Eval.strictExprRule why ev e)
      stmt := fun st => Eval.stmt ev st
      call := fun callee args callSite =>
        Eval.strictCallWith why ev (Eval.functionBodyWith (Eval.checkFunction why) ev) callee args callSite
      script := fun source origin callSite =>
        Eval.scriptWith (Eval.programWith (Eval.checkScript why) ev) source origin callSite
    }

namespace Eval

variable {why : Stop} {ev : Evaluator}

theorem strictPlace_eq {target : Expr} (htarget : target.isAssignable)
    : strictPlace why ev target = place ev target := by
  cases target with
  | name | member | index => rfl
  | _ => cases htarget

theorem strictBinary_eq {op : BinaryOp} (hop : op.isArithmetic) (a b : Value)
    : strictBinary why op a b = Run.binary op a b := by
  cases op with
  | and | or => cases hop
  | _ => rfl

/-- Which operators evaluate their right operand at once is decided before. -/
theorem strictBinaryExpr_eq (op : BinaryOp) (left right : Expr)
    : strictBinaryExpr why ev op left right = binaryExpr ev op left right := by
  cases op <;> rfl

theorem strictUpdate_eq {target : Expr} (htarget : target.isAssignable) (step : Double) (givesNew : Bool)
    : strictUpdate why ev target step givesNew = update ev target step givesNew := by
  unfold strictUpdate update
  rw [strictPlace_eq htarget]

theorem strictUnaryExpr_eq {op : UnaryOp} {operand : Expr} (h : op.isUpdate → operand.isAssignable)
    : strictUnaryExpr why ev op operand = unaryExpr ev op operand := by
  cases op with
  | preInc | preDec | postInc | postDec => exact strictUpdate_eq (h rfl) _ _
  | _ => rfl

/-- The cases that are left out do not occur in expressions that the grammar gives. -/
theorem strictExprRule_eq {e : Expr} (he : e.WellFormed) : strictExprRule why ev e = exprRule ev e := by
  cases e with
  | binary op left right => exact strictBinaryExpr_eq op left right
  | unary op operand => exact strictUnaryExpr_eq he.1
  | assign target value =>
    change strictAssign why ev target value = assign ev target value
    unfold strictAssign assign
    rw [strictPlace_eq he.1]
  | compound op target value =>
    change strictCompoundAssign why ev op target value = compoundAssign ev op target value
    unfold strictCompoundAssign compoundAssign
    rw [strictPlace_eq he.2.1]
    simp only [strictBinary_eq he.1]
  | _ => rfl

end Eval
section

open Run

variable {C : Comparison} {s : Session} {why : Stop}

theorem matches_checkScript {completion : Completion} (h : completion.Allowed {})
    : Matches C C.Excuses s Free (Eval.checkScript why completion) (pure ⟨⟩) := by
  cases completion with
  | normal => exact matches_pure trivial
  | _ => cases h

theorem matches_checkFunction {completion : Completion} (h : completion.Allowed { inFunction := true })
    : Matches C C.Excuses s Free (Eval.checkFunction why completion) (pure ⟨⟩) := by
  cases completion with
  | normal | «return» v => exact matches_pure trivial
  | «break» | «continue» => cases h

theorem strictCallWith_eq {ev : Evaluator} {body : FunctionBody → Run Value} {callee : ObjectId}
    (hcallee : s.heap.isCallable callee) (args : List Value) (callSite : Option Location) (env : Env)
    : Eval.strictCallWith why ev body callee args callSite env s
        = Eval.callWith body ev callee args callSite env s := by
  unfold Eval.strictCallWith
  rw [bind_done (rfl : get env s = .done s s)]
  unfold Heap.isCallable at hcallee
  cases hcontent : s.heap.content callee with
  | native | closure => rfl
  | _ =>
    rw [hcontent] at hcallee
    cases hcallee

theorem strictEvaluator_matches [C.Lawful] (hlevel : C.Level) (hclear : ∀ c, C.Clear c)
    (hcallee : ¬ C.anyCallee) (why : Stop) (n : Nat)
    : (strictEvaluator why n).Matches C n (evaluator n) := by
  induction n with
  | zero => exact evaluator_zero_matches
  | succ n ih =>
    have hallclear : ∀ s, C.IsClear s := fun _ => hclear _
    refine ⟨?_, ?_, ?_, ?_⟩
    . intro Excused s e hr
      have hx : Matches C Excused s Free
          (Eval.nested e.loc (Eval.strictExprRule why (strictEvaluator why n) e))
          (Eval.expr (evaluator n) e) := by
        rw [Eval.expr_eq, Eval.strictExprRule_eq hr.1]
        apply Eval.matches_nested
        exact (Eval.matches_exprRule ih (hallclear _) hr.nested).strict hlevel.memory
      exact hx.mono fun _ s' _ => hallclear s'
    . intro Excused s jumps st hr
      exact Eval.matches_stmt ih hlevel.memory hr
    . intro Excused s callee hr hcallable args callSite
      have hx : Matches C Excused s Free
          (Eval.callWith (Eval.functionBodyWith (Eval.checkFunction why) (strictEvaluator why n))
            (strictEvaluator why n) callee args callSite)
          (Eval.call (evaluator n) callee args callSite) := by
        rw [Eval.call_eq]
        refine Matches.strict ?_ hlevel.memory
        refine Eval.matches_callWith ih ?_ (hallclear s) hr (fun _ _ _ _ => hlevel.room s) args callSite
        intro s' body hr'
        rw [Eval.functionBody_eq]
        exact Eval.matches_functionBodyWith ih (fun _ _ => matches_checkFunction) hr'
      intro hs
      have hm := hx hs
      rwa [← strictCallWith_eq (hcallable.resolve_left hcallee)] at hm
    . intro Excused s source hr origin callSite
      have hx : Matches C Excused s Free
          (Eval.scriptWith (Eval.programWith (Eval.checkScript why) (strictEvaluator why n)) source
            origin callSite)
          (Eval.script (evaluator n) source origin callSite) := by
        rw [Eval.script_eq]
        refine Matches.strict ?_ hlevel.memory
        refine Eval.matches_scriptWith ?_ hr (fun _ _ => hlevel.room s) origin callSite
        intro s' stmts hr'
        rw [Eval.program_eq]
        exact Eval.matches_programWith ih (fun _ _ => matches_checkScript) hr'
      exact hx.mono fun _ s' _ => hallclear s'

end

namespace Session

variable {s s' : Session}

/-- All functions that scripts have made are well-formed. -/
def Orderly (s : Session) : Prop :=
  s.heap.Closures fun f _ => f.WellFormed

theorem Visited.orderly (hv : s.Visited) : s.Orderly :=
  fun o ho f scope script hcontent => (hv.rooted o ho f scope script hcontent).1

instance : Script.Trait fun _ _ _ => True where
  mono _ _ := trivial
  of_parse _ _ _ := trivial

theorem Orderly.run_strictEvaluator (hs : s.Orderly) {env : Env} {entry : Entry Value} {fuel : Nat}
    (hstarts : entry.Starts (.having (fun _ _ _ => True) env) fuel s) (why : Stop)
    : entry.run (strictEvaluator why fuel) env s = entry.run (evaluator fuel) env s := by
  have hinv : (Comparison.having (fun _ _ _ => True) env).Inv s :=
    fun o ho f scope script hcontent => ⟨hs o ho f scope script hcontent, fun _ _ => trivial⟩
  have hlevel : (Comparison.having (fun _ _ _ => True) env).Level := Comparison.having_level
  have hev := strictEvaluator_matches hlevel (fun _ => trivial) id why fuel
  have hm : Outcome.Matches _ Run.Never s Run.Free _ _ := Entry.matches_run hev hstarts hinv
  rw [hlevel.env'_eq, hlevel.image_eq] at hm
  exact hm.eq hlevel fun _ _ => id

/--
Wherever a script runs, or a function is called, it makes no difference to stop rather than lose a jump: to
stop when a statement of a script does not end normally, when a statement of a function ends with `break` or
`continue`, or in a case for code that the grammar does not give. All sessions that a host comes by are
orderly.
-/
theorem run_strict
    : (∀ (s : Session) (env : Env) (fuel : Nat) (why : Stop), s.Orderly →
          ∀ source origin callSite,
            (strictEvaluator why fuel).script source origin callSite env s
              = (evaluator fuel).script source origin callSite env s)
        ∧ (∀ (s : Session) (env : Env) (fuel : Nat) (why : Stop), s.Orderly →
            ∀ callee args callSite, s.heap.isCallable callee →
              (strictEvaluator why fuel).call callee args callSite env s
                = (evaluator fuel).call callee args callSite env s)
        ∧ (∀ s s' entry, Reachable s → s.Begins s' entry → ∀ (env : Env) (fuel : Nat) (why : Stop),
            entry.run (strictEvaluator why fuel) env s' = entry.run (evaluator fuel) env s')
        ∧ ∀ s, Visited s → s.Orderly := by
  refine ⟨?_, ?_, ?_, fun s => Visited.orderly⟩
  . intro s env fuel why hs source origin callSite
    have hstarts : (Entry.script source origin callSite).Starts
        (.having (fun _ _ _ => True) env) fuel s := ⟨trivial, fun _ hf => absurd hf List.not_mem_nil⟩
    exact hs.run_strictEvaluator hstarts why
  . intro s env fuel why hs callee args callSite hcallee
    have hstarts : (Entry.call callee args callSite).Starts
        (.having (fun _ _ _ => True) env) fuel s := ⟨⟨trivial, fun _ hf => absurd hf List.not_mem_nil⟩, .inr hcallee⟩
    exact hs.run_strictEvaluator hstarts why
  . intro s s' entry hr hb env fuel why
    have hs' : s'.Orderly := by
      cases hb <;> exact hr.visited.orderly
    exact hs'.run_strictEvaluator (hb.starts_having hr.visited.wellFormed fuel) why

/-- A loop whose finalizer leaves it, although its body returns. -/
def overriding : String :=
  "function f() \x7b while (true) \x7b try \x7b return 1; \x7d finally \x7b break; \x7d \x7d return 2; \x7d f();"

/-- What the strict evaluation of that script ends with in a new session, and that session. -/
def overridden? : Option (Session × Value × Session) :=
  match Session.start {} with
  | .ok s =>
    match (strictEvaluator .outOfFuel 100).script overriding "a.js" none aloneEnv s with
    | .done v s' => some (s, v, s')
    | _ => none
  | .error _ => none

theorem overridden_spec : ∃ p, overridden? = some p ∧ p.2.1 = .number (.ofNat 2) := by
  decide +kernel

/-- The jump out of the loop is not lost, and takes the place of the one out of the function. -/
theorem run_strict_overridden
    : ∃ s s', Orderly s ∧ Reachable s
        ∧ (evaluator 100).script overriding "a.js" none aloneEnv s = .done (.number (.ofNat 2)) s' := by
  obtain ⟨⟨s, v, s'⟩, hoverridden, hv⟩ := overridden_spec
  unfold overridden? at hoverridden
  split at hoverridden
  . next s₀ hstart =>
    split at hoverridden
    . next hscript =>
      cases hoverridden
      cases hv
      have hr : s.Reachable := .start hstart
      obtain ⟨hscripts, -, -, horderly⟩ := run_strict
      have hs := horderly s hr.visited
      refine ⟨s, s', hs, hr, ?_⟩
      rw [← hscripts s aloneEnv 100 .outOfFuel hs]
      exact hscript
    . cases hoverridden
  . cases hoverridden

end Session
end ScriptHost
