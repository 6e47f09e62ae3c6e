import ScriptHost.Proofs.Comparison.Access
import ScriptHost.Proofs.Discipline.Expr

/-!
This module contains that the rules for expressions match in any lawful comparison, if the evaluations of
their parts do. A rule may need memory, so out of memory only its first evaluation may be.
-/

namespace ScriptHost

/--
Two evaluators that go so deep match on code that may run. After an expression or a script, texts may be
taken from the session.
-/
structure Evaluator.Matches (C : Comparison) (n : Nat) (ev ev' : Evaluator) : Prop where
  expr : ∀ {Excused : Exception → Prop} {s : Session} {e : Expr}, C.Runs n s (.expr e) →
    Run.Matches C Excused s (fun _ => C.IsClear) (ev.expr e) (ev'.expr e)
  stmt : ∀ {Excused : Exception → Prop} {s : Session} {jumps : Jumps} {st : Stmt},
    C.Runs n s (.stmt jumps st) →
    Run.Matches C Excused s (fun completion _ => completion.Allowed jumps) (ev.stmt st) (ev'.stmt st)
  call : ∀ {Excused : Exception → Prop} {s : Session} {callee : ObjectId}, C.Runs n s .call →
    C.anyCallee ∨ s.heap.isCallable callee → ∀ args callSite,
      Run.Matches C Excused s Run.Free (ev.call callee args callSite) (ev'.call callee args callSite)
  script : ∀ {Excused : Exception → Prop} {s : Session} {source : String},
    C.Runs n s (.load source) → ∀ origin callSite,
      Run.Matches C Excused s (fun _ => C.IsClear) (ev.script source origin callSite)
        (ev'.script source origin callSite)

namespace Eval

open Run

variable {C : Comparison} {Excused : Exception → Prop} {n : Nat} {ev ev' : Evaluator} {s : Session}
  {loc : Location}

theorem matches_closure {f : Function} (hf : C.Known s.scripts f (s.currentScript?.getD ⟨0⟩))
    : Matches C C.Excuses s Free (closure f) (closure f) := by
  apply matches_get
  refine Matches.bind (matches_heap (Heap.lifts_allocate _) (Heap.keeps_allocate ?_) f.loc) ?_
  . intro g scope script hclosure
    cases hclosure
    exact hf
  . exact fun _ _ _ _ => matches_pure trivial

variable [C.Lawful]

namespace Place

theorem matches_read (hc : C.IsClear s) (p : Place)
    : Matches C Excused s (Still s) (p.read loc) (p.read loc) := by
  cases p with
  | named name => exact matches_readVariable name
  | property base key => exact matches_getMember base key
  | element base key => exact matches_getIndex hc base key

theorem matches_write (hc : C.IsClear s) (p : Place) (v : Value)
    : Matches C C.Excuses s Free (p.write v loc) (p.write v loc) := by
  cases p with
  | named name => exact matches_writeVariable name v
  | property base key => exact matches_setMember base key v
  | element base key => exact matches_setIndex hc base key v

end Place

theorem matches_nested {x x' : Run Value}
    (hx : Matches C Excused (s.moved s.stack (s.expressionDepth + 1)) Free x x')
    : Matches C Excused s Free (nested loc x) (nested loc x') := by
  apply matches_get
  apply matches_env
  rw [show C.env'.config = C.config from rfl, Comparison.Lawful.maxExpressionDepth,
    show (C.image s).expressionDepth = s.expressionDepth from rfl]
  split
  . exact matches_raise _ _
  . have hleave : ∀ s' : Session, s'.stack = s.stack → s'.expressionDepth = s.expressionDepth + 1 →
        { s' with expressionDepth := s'.expressionDepth - 1 } = s'.moved s.stack s.expressionDepth := by
      intro s' hstack hdepth
      unfold Session.moved
      rw [← hstack, hdepth]
      rfl
    apply matches_moved (P := fun _ => True) rfl rfl hleave
    . intro s' hstack hdepth
      rw [← hleave s' hstack hdepth]
      rfl
    . exact hx

variable (hev : ev.Matches C n ev')
include hev

theorem matches_place (hc : C.IsClear s) {target : Expr} (hr : C.Runs n s (.expr target))
    : Matches C Excused s (fun _ => C.IsClear) (place ev target) (place ev' target) := by
  cases target with
  | name name _ => exact matches_pure hc
  | member base key _ =>
    apply (hev.expr (hr.inner (List.mem_singleton_self _))).bind
    exact fun base s' _ hc' => matches_pure hc'
  | index base key _ =>
    apply (hev.expr (hr.inner List.mem_cons_self)).bind
    intro base s₁ hl₁ _
    apply (hev.expr ((hr.leads hl₁).inner (List.mem_cons_of_mem _ (List.mem_singleton_self _)))).bind
    exact fun key s₂ _ hc₂ => matches_pure hc₂
  | _ => exact matches_raise _ _

theorem matches_binaryExpr {left right : Expr} (hleft : C.Runs n s (.expr left))
    (hright : C.Runs n s (.expr right)) (op : BinaryOp)
    : Matches C Excused s Free (binaryExpr ev op left right) (binaryExpr ev' op left right) := by
  apply (hev.expr hleft).bind
  intro a s₁ hl₁ _
  have hright' : Matches C Excused s₁ (fun _ => C.IsClear) (ev.expr right) (ev'.expr right) :=
    hev.expr (hright.leads hl₁)
  have hoperator : ∀ op, Matches C Excused s₁ Free
      (do
        let b ← ev.expr right
        Run.binary op a b)
      (do
        let b ← ev'.expr right
        Run.binary op a b) := by
    intro op
    apply hright'.bind
    intro b s₂ _ hc₂
    exact (matches_binary hc₂ op a b).mono fun _ _ _ => trivial
  cases op with
  | and =>
    dsimp only
    split
    . exact hright'.mono fun _ _ _ => trivial
    . exact matches_pure trivial
  | or =>
    dsimp only
    split
    . exact matches_pure trivial
    . exact hright'.mono fun _ _ _ => trivial
  | _ => exact hoperator _

omit [C.Lawful] in
theorem matches_typeofExpr {operand : Expr} (hr : C.Runs n s (.expr operand))
    : Matches C Excused s Free (typeofExpr ev operand) (typeofExpr ev' operand) := by
  apply Matches.bind (P := Free)
  . cases operand with
    | name name _ =>
      apply matches_get
      rw [Comparison.image, s.readVariable?_raised name]
      exact matches_pure trivial
    | _ => exact (hev.expr hr).mono fun _ _ _ => trivial
  . exact fun v s' _ _ => matches_get (matches_pure trivial)

theorem matches_update (hc : C.IsClear s) {target : Expr} (hr : C.Runs n s (.expr target))
    (step : Double) (givesNew : Bool)
    : Matches C C.Excuses s Free (update ev target step givesNew) (update ev' target step givesNew) := by
  apply (matches_place hev hc hr).bind
  intro place s₁ _ hc₁
  apply (Place.matches_read hc₁ place).bind
  rintro v s₂ _ rfl
  apply (matches_toNumber hc₁ v).bind
  rintro old s₃ _ rfl
  apply (Place.matches_write hc₁ place _).bind
  exact fun _ _ _ _ => matches_pure trivial

theorem matches_unaryExpr (hc : C.IsClear s) {operand : Expr} (hr : C.Runs n s (.expr operand))
    (op : UnaryOp)
    : Matches C C.Excuses s Free (unaryExpr ev op operand) (unaryExpr ev' op operand) := by
  cases op with
  | neg | plus =>
    apply (hev.expr hr).bind
    intro v s₁ _ hc₁
    apply (matches_toNumber hc₁ v).bind
    exact fun _ _ _ _ => matches_pure trivial
  | not =>
    apply (hev.expr hr).bind
    exact fun _ _ _ _ => matches_pure trivial
  | typeof => exact matches_typeofExpr hev hr
  | preInc | preDec | postInc | postDec => exact matches_update hev hc hr _ _

theorem matches_assign (hc : C.IsClear s) {target value : Expr} (htarget : C.Runs n s (.expr target))
    (hvalue : C.Runs n s (.expr value))
    : Matches C C.Excuses s Free (assign ev target value) (assign ev' target value) := by
  apply (matches_place hev hc htarget).bind
  intro place s₁ hl₁ _
  apply (hev.expr (hvalue.leads hl₁)).bind
  intro v s₂ _ hc₂
  apply (Place.matches_write hc₂ place v).bind
  exact fun _ _ _ _ => matches_pure trivial

theorem matches_compoundAssign (hc : C.IsClear s) {target value : Expr}
    (htarget : C.Runs n s (.expr target)) (hvalue : C.Runs n s (.expr value)) (op : BinaryOp)
    : Matches C C.Excuses s Free (compoundAssign ev op target value)
        (compoundAssign ev' op target value) := by
  apply (matches_place hev hc htarget).bind
  intro place s₁ hl₁ hc₁
  apply (Place.matches_read hc₁ place).bind
  rintro old s₂ _ rfl
  apply (hev.expr (hvalue.leads hl₁)).bind
  intro operand s₃ _ hc₃
  apply (matches_binary hc₃ op old operand).bind
  rintro v s₄ _ rfl
  apply (Place.matches_write hc₃ place v).bind
  exact fun _ _ _ _ => matches_pure trivial

theorem matches_objectExpr {properties : List Property}
    (hr : C.Runs (n + 1) s (.expr (.object properties loc)))
    : Matches C C.Excuses s Free (objectExpr ev properties loc) (objectExpr ev' properties loc) := by
  have hcontent : Heap.Keeps (C.Known s.scripts) (Heap.allocate .ordinary) :=
    Heap.keeps_allocate fun _ _ _ => nofun
  apply (matches_heap (Heap.lifts_allocate _) hcontent loc).bind
  intro id s₁ hl₁ _
  apply Matches.bind
  . apply matches_forM (I := fun _ => True) trivial
    intro p hp s₂ hl₂ _
    have hvalue := (hr.leads (hl₁.trans hl₂)).part (List.mem_map_of_mem hp)
    apply (hev.expr hvalue).bind
    intro v s₃ _ _
    exact matches_heap (Heap.lifts_setProperty _ _ _) (Heap.keeps_setProperty _ _ _) loc
  . exact fun _ _ _ _ => matches_pure trivial

theorem matches_exprs {es : List Expr} (hr : ∀ e ∈ es, C.Runs n s (.expr e)) (hc : C.IsClear s)
    : Matches C Excused s (fun _ => C.IsClear) (es.mapM ev.expr) (es.mapM ev'.expr) := by
  apply matches_mapM hc
  intro e he s' hl _
  exact hev.expr ((hr e he).leads hl)

theorem matches_callExpr {callee : Expr} {args : List Expr}
    (hr : C.Runs (n + 1) s (.expr (.call callee args loc)))
    : Matches C Excused s Free (callExpr ev callee args loc) (callExpr ev' callee args loc) := by
  apply (hev.expr (hr.part (List.mem_cons_of_mem _ List.mem_cons_self))).bind
  intro f s₁ hl₁ hc₁
  have hargs : ∀ e ∈ args, C.Runs n s₁ (.expr e) := fun e he =>
    (hr.leads hl₁).part (List.mem_cons_of_mem _ (List.mem_cons_of_mem _ (List.mem_map_of_mem he)))
  apply (matches_exprs hev hargs hc₁).bind
  intro values s₂ hl₂ _
  apply matches_get
  rw [show (C.image s₂).callable? f = s₂.callable? f from rfl]
  cases hcallable : s₂.callable? f with
  | some id =>
    have hid : s₂.heap.isCallable id := (Option.filter_eq_some_iff.1 hcallable).2
    exact hev.call ((hr.leads (hl₁.trans hl₂)).part List.mem_cons_self) (.inr hid) values (some loc)
  | none => exact matches_raise _ _

theorem matches_exprRule (hc : C.IsClear s) {e : Expr} (hr : C.Runs (n + 1) s (.expr e))
    : Matches C C.Excuses s Free (exprRule ev e) (exprRule ev' e) := by
  cases e with
  | number _ _ | string _ _ | bool _ _ | null _ | undefined _ => exact matches_pure trivial
  | name name loc => exact (matches_readVariable name).mono fun _ _ _ => trivial
  | array elements loc =>
    apply (matches_exprs hev (fun e he => hr.part (List.mem_map_of_mem he)) hc).bind
    intro values s₁ _ _
    have hcontent : Heap.Keeps (C.Known s₁.scripts) (Heap.allocate (.array values.toArray)) :=
      Heap.keeps_allocate fun _ _ _ => nofun
    apply (matches_heap (Heap.lifts_allocate _) hcontent loc).bind
    exact fun _ _ _ _ => matches_pure trivial
  | object properties loc => exact matches_objectExpr hev hr
  | function f => exact matches_closure hr.literal
  | binary op left right _ =>
    exact matches_binaryExpr hev (hr.part List.mem_cons_self) (hr.part (by simp [Code.parts, Expr.parts])) op
  | unary op operand _ => exact matches_unaryExpr hev hc (hr.part List.mem_cons_self) op
  | assign target value _ =>
    exact matches_assign hev hc (hr.part List.mem_cons_self) (hr.part (by simp [Code.parts, Expr.parts]))
  | compound op target value _ =>
    exact matches_compoundAssign hev hc (hr.part List.mem_cons_self)
      (hr.part (by simp [Code.parts, Expr.parts])) op
  | conditional condition whenTrue whenFalse _ =>
    apply (hev.expr (hr.part List.mem_cons_self)).bind
    intro v s' hl _
    have hr' := hr.leads hl
    split
    . exact (hev.expr (hr'.part (by simp [Code.parts, Expr.parts]))).mono fun _ _ _ => trivial
    . exact (hev.expr (hr'.part (by simp [Code.parts, Expr.parts]))).mono fun _ _ _ => trivial
  | call callee args loc => exact matches_callExpr hev hr
  | member base property loc =>
    apply (hev.expr (hr.part List.mem_cons_self)).bind
    intro base s' _ _
    exact (matches_getMember base property).mono fun _ _ _ => trivial
  | index base key loc =>
    apply (hev.expr (hr.part List.mem_cons_self)).bind
    intro base s₁ hl₁ _
    apply (hev.expr ((hr.leads hl₁).part (by simp [Code.parts, Expr.parts]))).bind
    intro key s₂ _ hc₂
    exact (matches_getIndex hc₂ base key).mono fun _ _ _ => trivial

end Eval
end ScriptHost
