import ScriptHost.Eval.Expr
import ScriptHost.Proofs.Discipline.Access

/-!
This module contains that the rules for expressions keep any lawful discipline, if the evaluation of their
parts does. Two evaluators that agree on the parts agree on the whole.
-/

namespace ScriptHost

/-- A statement ends with no other value than one that scripts may get hold of. -/
abbrev Discipline.Ends (D : Discipline) (completion : Completion) (h : Heap) : Prop :=
  ∀ v, completion = .return v → D.Admits h v

/-- Two evaluators agree and keep the discipline, on code that may run and on admitted values. -/
structure Evaluator.Agree (D : Discipline) (env : Env) (ev ev' : Evaluator) : Prop where
  expr : ∀ {s : Session} {e : Expr}, D.Runs s e.locations →
    Run.Agree D env s D.Gives (ev.expr e) (ev'.expr e)
  stmt : ∀ {s : Session} {st : Stmt}, D.Runs s st.locations →
    Run.Agree D env s D.Ends (ev.stmt st) (ev'.stmt st)
  call : ∀ {s : Session} {callee : ObjectId} {args : List Value} {callSite : Option Location},
    D.Admits s.heap (.object callee) → (∀ v ∈ args, D.Admits s.heap v) → D.CoversCall s callSite →
    Run.Agree D env s D.Gives (ev.call callee args callSite) (ev'.call callee args callSite)
  script : ∀ {s : Session} {callSite : Option Location}, D.CoversCall s callSite →
    ∀ source origin,
      Run.Agree D env s D.Gives (ev.script source origin callSite) (ev'.script source origin callSite)

/-- A place is at an admitted object, if it is at an object. -/
def Place.Admitted (D : Discipline) (p : Place) (h : Heap) : Prop :=
  match p with
  | .named _ => True
  | .property base _ | .element base _ => D.Admits h base

theorem Place.Admitted.leads {D : Discipline} [D.Lawful] {s s' : Session} {p : Place}
    (hp : p.Admitted D s.heap) (hl : D.Leads s s')
    : p.Admitted D s'.heap := by
  cases p with
  | named name => trivial
  | property base key => exact hl.admits hp
  | element base key => exact hl.admits hp

namespace Eval

open Run

/-- Evaluate an expression at `loc`, unless too many others wait for it. -/
def nested (loc : Location) (x : Run Value) : Run Value := do
  let depth := (← Run.get).expressionDepth
  if (← Run.env).config.maxExpressionDepth ≤ depth then
    Run.raise .stackOverflow loc
  else
    Run.modify fun s => { s with expressionDepth := depth + 1 }
    Run.ensuring x fun s => { s with expressionDepth := s.expressionDepth - 1 }

theorem expr_eq (ev : Evaluator) (e : Expr) : expr ev e = nested e.loc (exprRule ev e) := rfl

variable {D : Discipline} {env : Env} {ev ev' : Evaluator} {s : Session} {loc : Location}

section Frames

variable [D.LawfulUnder env.config]

theorem agree_nested {x x' : Run Value} (hc : D.Covers s loc)
    (hx : Agree D env (s.moved s.stack (s.expressionDepth + 1)) D.Gives x x')
    : Agree D env s D.Gives (nested loc x) (nested loc x') := by
  apply agree_get
  apply agree_env
  split
  . exact obeys_raise hc rfl
  . next hdepth =>
    apply agree_moved rfl (.expression (Nat.lt_of_not_le hdepth))
    . intro s' hstack hdepth'
      rw [hdepth']
      unfold Session.moved
      rw [← hstack]
      rfl
    . exact hx

end Frames

variable [D.Lawful]

theorem obeys_closure {f : Function} (hr : D.Runs s f.locations)
    : Obeys D env s D.Gives (closure f) := by
  apply agree_get
  apply (obeys_allocate (hr.covers f.loc_mem_locations) (.closure hr)).bind
  intro id s' _ hid
  exact obeys_pure hid.1

namespace Place

theorem obeys_read (hc : D.Covers s loc) {p : Place} (hp : p.Admitted D s.heap)
    : Obeys D env s D.Gives (p.read loc) := by
  cases p with
  | named name => exact obeys_readVariable hc name
  | property base key => exact obeys_getMember hc hp key
  | element base key => exact obeys_getIndex hc hp key

theorem obeys_write (hc : D.Covers s loc) {p : Place} (hp : p.Admitted D s.heap) {v : Value}
    (hv : D.Admits s.heap v)
    : Obeys D env s Any (p.write v loc) := by
  cases p with
  | named name => exact obeys_writeVariable hc name hv
  | property base key => exact obeys_setMember hc hp key hv
  | element base key => exact obeys_setIndex hc hp key hv

end Place

variable (hev : ev.Agree D env ev')
include hev

theorem agree_place {target : Expr} (hr : D.Runs s target.locations)
    : Agree D env s (Place.Admitted D) (place ev target) (place ev' target) := by
  have hc := hr.covers target.loc_mem_locations
  cases target with
  | name name _ => exact obeys_pure trivial
  | member object key _ =>
    apply (hev.expr hr.tail).bind
    intro base s' _ hbase
    exact obeys_pure hbase
  | index object key _ =>
    apply (hev.expr hr.tail.left).bind
    intro base s₁ hl₁ hbase
    apply (hev.expr (hl₁.runs hr.tail.right)).bind
    intro key s₂ hl₂ _
    exact obeys_pure (hl₂.admits hbase)
  | _ => exact obeys_raise hc rfl

theorem agree_binaryExpr {left right : Expr} (hleft : D.Runs s left.locations)
    (hright : D.Runs s right.locations) (op : BinaryOp)
    : Agree D env s D.Gives (binaryExpr ev op left right) (binaryExpr ev' op left right) := by
  apply (hev.expr hleft).bind
  intro a s₁ hl₁ ha
  have hright' := hl₁.runs hright
  have hoperator : ∀ op, Agree D env s₁ D.Gives
      (do
        let b ← ev.expr right
        Run.binary op a b)
      (do
        let b ← ev'.expr right
        Run.binary op a b) := by
    intro op
    apply (hev.expr hright').bind
    intro b s₂ hl₂ hb
    exact obeys_binary op (hl₂.admits ha) hb
  cases op with
  | and =>
    dsimp only
    split
    . exact hev.expr hright'
    . exact obeys_pure ha
  | or =>
    dsimp only
    split
    . exact obeys_pure ha
    . exact hev.expr hright'
  | _ => exact hoperator _

theorem agree_typeofExpr {operand : Expr} (hr : D.Runs s operand.locations)
    : Agree D env s D.Gives (typeofExpr ev operand) (typeofExpr ev' operand) := by
  apply Agree.bind (P := Any)
  . cases operand with
    | name name _ => exact agree_get (obeys_pure trivial)
    | _ => exact (hev.expr hr).mono fun _ _ _ => trivial
  . intro v s' _ _
    exact agree_get (obeys_plain rfl)

theorem agree_update {target : Expr} (hr : D.Runs s target.locations) (step : Double)
    (givesNew : Bool)
    : Agree D env s D.Gives (update ev target step givesNew) (update ev' target step givesNew) := by
  have hc := hr.covers target.loc_mem_locations
  apply (agree_place hev hr).bind
  intro place s₁ hl₁ hplace
  apply (Place.obeys_read (hl₁.covers hc) hplace).bind
  intro v s₂ hl₂ _
  apply (obeys_toNumber v).bind
  intro old s₃ hl₃ _
  have hl := hl₂.trans hl₃
  apply Agree.bind
  . exact Place.obeys_write (hl.covers (hl₁.covers hc)) (hplace.leads hl)
      (Discipline.Lawful.admits_plain rfl)
  . intro _ s₄ _ _
    exact obeys_plain rfl

theorem agree_unaryExpr {operand : Expr} (hr : D.Runs s operand.locations) (op : UnaryOp)
    : Agree D env s D.Gives (unaryExpr ev op operand) (unaryExpr ev' op operand) := by
  cases op with
  | neg | plus =>
    apply (hev.expr hr).bind
    intro v s₁ _ _
    apply (obeys_toNumber v).bind
    intro x s₂ _ _
    exact obeys_plain rfl
  | not =>
    apply (hev.expr hr).bind
    intro v s' _ _
    exact obeys_plain rfl
  | typeof => exact agree_typeofExpr hev hr
  | preInc | preDec | postInc | postDec => exact agree_update hev hr _ _

theorem agree_assign {target value : Expr} (htarget : D.Runs s target.locations)
    (hvalue : D.Runs s value.locations)
    : Agree D env s D.Gives (assign ev target value) (assign ev' target value) := by
  have hc := htarget.covers target.loc_mem_locations
  apply (agree_place hev htarget).bind
  intro place s₁ hl₁ hplace
  apply (hev.expr (hl₁.runs hvalue)).bind
  intro v s₂ hl₂ hv
  apply (Place.obeys_write (hl₂.covers (hl₁.covers hc)) (hplace.leads hl₂) hv).bind
  intro _ s₃ hl₃ _
  exact obeys_pure (hl₃.admits hv)

theorem agree_compoundAssign {target value : Expr} (htarget : D.Runs s target.locations)
    (hvalue : D.Runs s value.locations) (op : BinaryOp)
    : Agree D env s D.Gives (compoundAssign ev op target value)
        (compoundAssign ev' op target value) := by
  have hc := htarget.covers target.loc_mem_locations
  apply (agree_place hev htarget).bind
  intro place s₁ hl₁ hplace
  apply (Place.obeys_read (hl₁.covers hc) hplace).bind
  intro old s₂ hl₂ hold
  have hl₂' := hl₁.trans hl₂
  apply (hev.expr (hl₂'.runs hvalue)).bind
  intro operand s₃ hl₃ hoperand
  apply (obeys_binary op (hl₃.admits hold) hoperand).bind
  intro v s₄ hl₄ hv
  have hl := (hl₂.trans hl₃).trans hl₄
  apply (Place.obeys_write (hl.covers (hl₁.covers hc)) (hplace.leads hl) hv).bind
  intro _ s₅ hl₅ _
  exact obeys_pure (hl₅.admits hv)

theorem agree_objectExpr {properties : List Property}
    (hr : D.Runs s (loc :: Property.locationsAll properties))
    : Agree D env s D.Gives (objectExpr ev properties loc) (objectExpr ev' properties loc) := by
  have hc := hr.head
  apply (obeys_allocate hc .object).bind
  rintro id s₁ hl₁ ⟨hid, hin, hcontent⟩
  apply Agree.bind (P := Any)
  . apply agree_forM
    intro p hp s₂ hl₂
    have hl := hl₁.trans hl₂
    have hp' := hr.tail.mono (Property.locations_subset_all hp)
    apply (hev.expr (hl.runs hp')).bind
    intro v s₃ hl₃ hv
    have harray : s₃.heap.isArray id = false := by
      rw [Heap.Retains.isArray (hl₂.trans hl₃).heap hin, Heap.isArray, hcontent]
      rfl
    exact obeys_store (hl₃.covers (hl.covers hc)) (.property (hl₃.admits (hl₂.admits hid)) hv)
      (Session.fits_property (fun h => absurd (harray.symm.trans h) Bool.false_ne_true) v) rfl
  . intro _ s₂ hl₂ _
    exact obeys_pure (hl₂.admits hid)

theorem agree_exprs {es : List Expr} (hr : D.Runs s (Expr.locationsAll es))
    : Agree D env s (fun vs h => ∀ v ∈ vs, D.Admits h v) (es.mapM ev.expr) (es.mapM ev'.expr) := by
  apply agree_mapM fun _ _ _ hl hv => hl.admits hv
  intro e he s' hl
  exact hev.expr ((hl.runs hr).mono (Expr.locations_subset_all he))

theorem agree_callExpr {callee : Expr} {args : List Expr} (hcallee : D.Runs s callee.locations)
    (hargs : D.Runs s (Expr.locationsAll args)) (hc : D.Covers s loc)
    : Agree D env s D.Gives (callExpr ev callee args loc) (callExpr ev' callee args loc) := by
  apply (hev.expr hcallee).bind
  intro f s₁ hl₁ hf
  apply (agree_exprs hev (hl₁.runs hargs)).bind
  intro values s₂ hl₂ hvalues
  have hc' := hl₂.covers (hl₁.covers hc)
  apply agree_get
  cases hcallable : s₂.callable? f with
  | some id =>
    have hobject : f.object? = some id := (Option.filter_eq_some_iff.1 hcallable).1
    have hid : D.Admits s₂.heap (.object id) := by
      cases f with
      | object id' =>
        cases hobject
        exact hl₂.admits hf
      | _ => cases hobject
    exact hev.call hid hvalues fun _ => hc'
  | none => exact obeys_raise hc' rfl

theorem agree_exprRule {e : Expr} (hr : D.Runs s e.locations)
    : Agree D env s D.Gives (exprRule ev e) (exprRule ev' e) := by
  have hc := hr.covers e.loc_mem_locations
  cases e with
  | number _ _ | string _ _ | bool _ _ | null _ | undefined _ => exact obeys_plain rfl
  | name name loc => exact obeys_readVariable hc name
  | array elements loc =>
    apply (agree_exprs hev hr.tail).bind
    intro values s₁ hl₁ hvalues
    have hop : D.Does s₁ (.allocate (.array values.toArray)) :=
      .array fun v hv => hvalues v (List.mem_toArray.1 hv)
    apply (obeys_allocate (hl₁.covers hc) hop).bind
    intro id s₂ _ hid
    exact obeys_pure hid.1
  | object properties loc => exact agree_objectExpr hev hr
  | function f => exact obeys_closure hr
  | binary op left right _ => exact agree_binaryExpr hev hr.tail.left hr.tail.right op
  | unary op operand _ => exact agree_unaryExpr hev hr.tail op
  | assign target value _ => exact agree_assign hev hr.tail.left hr.tail.right
  | compound op target value _ => exact agree_compoundAssign hev hr.tail.left hr.tail.right op
  | conditional condition whenTrue whenFalse _ =>
    have hparts := hr.tail
    apply (hev.expr hparts.left.left).bind
    intro v s' hl _
    split
    . exact hev.expr (hl.runs hparts.left.right)
    . exact hev.expr (hl.runs hparts.right)
  | call callee args loc => exact agree_callExpr hev hr.tail.left hr.tail.right hc
  | member object property loc =>
    apply (hev.expr hr.tail).bind
    intro base s' hl hbase
    exact obeys_getMember (hl.covers hc) hbase property
  | index object key loc =>
    apply (hev.expr hr.tail.left).bind
    intro base s₁ hl₁ hbase
    apply (hev.expr (hl₁.runs hr.tail.right)).bind
    intro key s₂ hl₂ _
    exact obeys_getIndex (hl₂.covers (hl₁.covers hc)) (hl₂.admits hbase) key

end Eval
end ScriptHost
