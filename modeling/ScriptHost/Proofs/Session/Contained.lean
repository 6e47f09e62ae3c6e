import ScriptHost.Proofs.Heap.Around
import ScriptHost.Proofs.Session.Strict

/-!
This module contains an evaluation that keeps account of the scopes of each call: its own one, and those of
the handlers that it is in. It stops where a body would start with a name that is declared in it, but not
bound in its own scope, and it stores what `var` initializes in those scopes only. It makes no difference
for scripts: no declaration of a function reaches a variable around the function.
-/

namespace ScriptHost

namespace Eval

section

variable (why : Stop) (ev : Option (List ObjectId) → Evaluator) (scopes : List ObjectId)

/-- Assign to a variable in the first of some scopes that binds the name, which has to be there. -/
def writeAmong (name : String) (value : Value) (loc : Location) : Run Unit := do
  let s ← Run.get
  match s.heap.findAmong? name scopes with
  | some (id, i) =>
    if ((s.heap.binding? id i).map Binding.mutable).getD false then
      Run.modify fun s => { s with heap := s.heap.assignBinding id i value }
    else
      Run.raise .constAssignment loc
  | none => .stop why

/-- A name of `var` is initialized in one of the scopes of the call. -/
def containedVar (d : Declarator) : Run Unit := do
  match d.init with
  | some init => writeAmong why scopes d.name (← (ev (some scopes)).expr init) d.loc
  | none => return

/-- The scope for the parameter of a handler, if it has one, is one more of the scopes of the call. -/
def containedHandle (handler : Handler) (caught : Exception) : Run Completion := do
  match ← enter handler caught with
  | none => block (ev (some scopes)) handler.body
  | some scope => inScope scope (block (ev (some (scope :: scopes))) handler.body)

def containedStmt (st : Stmt) : Run Completion :=
  stmtScoped (ev (some scopes)) (containedVar why ev scopes) (containedHandle ev scopes) st

/-- Before its first statement, a body has to have all its names bound in the scope of the call. -/
def containedBody (scope : ObjectId) : FunctionBody → Run Value
  | .expr value => (ev none).expr value
  | .block stmts => do
    hoist stmts
    if (← Run.get).heap.BindsAll scope stmts then
      untilReturn (ev (some [scope])) stmts
    else
      .stop why

end

end Eval

/--
The evaluation that goes `fuel` rules deep and keeps account of the scopes of the running call. There are
none at top level.
-/
def containedEvaluator (why : Stop) : (fuel : Nat) → (scopes? : Option (List ObjectId)) → Evaluator
  | 0, _ => evaluator 0
  | fuel + 1, scopes? =>
    let ev := containedEvaluator why fuel
    {
      expr := fun e => Eval.expr (ev none) e
      stmt := fun st =>
        match scopes? with
        | some scopes => Eval.containedStmt why ev scopes st
        | none => Eval.stmt (ev none) st
      call := fun callee args callSite =>
        Eval.callScoped (Eval.containedBody why ev) (ev none) callee args callSite
      script := fun source origin callSite => Eval.script (ev none) source origin callSite
    }

namespace Session

variable {s s' : Session} {body : List Stmt} {scopes : List ObjectId} {id : ObjectId} {name : String}

/-- The session is in a call of a function with that body, in the first of its scopes. -/
structure Inside (body : List Stmt) (scopes : List ObjectId) (s : Session) : Prop where
  scope : s.scope? = scopes.head?
  around : s.heap.Around body scopes

/-- The discipline of well-formed sessions, with all the steps that they make. -/
abbrev stepwise : Discipline :=
  Discipline.encapsulated.tracked fun _ => False

theorem binds_of_proceeds (hp : Discipline.encapsulated.Proceeds s s') (hb : s.heap.Binds id name)
    : s'.heap.Binds id name := by
  induction hp with
  | refl => exact hb
  | tail _ hstep ih =>
    cases hstep with
    | change hc =>
      cases hc with
      | store | const => exact ih.apply _
      | queue | dequeue | script | host => exact ih
    | move => exact ih

theorem binds_of_leads (hl : stepwise.Leads s s') (hb : s.heap.Binds id name) : s'.heap.Binds id name :=
  binds_of_proceeds hl.goes.2 hb

theorem Inside.lasts (hi : s.Inside body scopes) (hl : stepwise.Leads s s') : s'.Inside body scopes where
  scope := hl.scope?.trans hi.scope
  around := hi.around.mono hl.heap fun _ _ => binds_of_leads hl

end Session

namespace Run

open Session

variable {s : Session} {env : Env} {loc : Location} {scope : ObjectId} {name : String} {v : Value}
  {stmts : List Stmt}

theorem obeys_declare_binds (hc : stepwise.Covers s loc) (hscope : s.heap.HasScope scope)
    (hv : s.heap.HasPublic v) (mutable : Bool)
    : Obeys stepwise env s (fun _ h => h.Binds scope name)
        (heap loc (Heap.declare scope name v mutable)) := by
  apply obeys_heap hc
  intro hs
  have hop : stepwise.Does s (.declare scope name v mutable) := .binding hscope hv
  have hleaves : stepwise.Leaves s ((Heap.Op.declare scope name v mutable).apply s.heap) :=
    Discipline.Leaves.store (Discipline.leads_refl hs) hop fun _ _ _ => Heap.Op.noConfusion
  exact ⟨hleaves, fun _ hok => Heap.binds_declare hscope hok⟩

theorem obeys_declareVar_binds (hc : stepwise.Covers s loc) (hcurrent : s.scope? = some scope)
    (name : String)
    : Obeys stepwise env s (fun _ h => h.Binds scope name) (declareVar name loc) := by
  apply agree_get
  rw [hcurrent]
  dsimp only
  split
  . intro hs
    exact obeys_declare_binds hc (hs.1.scope hcurrent) (Heap.hasPublic_of_object?_eq_none rfl) true hs
  . next hbound =>
    apply obeys_pure
    rw [Option.isNone_iff_eq_none] at hbound
    exact Option.isSome_iff_ne_none.2 hbound

theorem obeys_declare_var_binds (hc : stepwise.Covers s loc) (hcurrent : s.scope? = some scope)
    (name : String) (hv : s.heap.HasPublic v)
    : Obeys stepwise env s (fun _ h => h.Binds scope name) (declare .var name v loc) := by
  apply agree_get
  rw [hcurrent]
  intro hs
  exact obeys_declare_binds hc (hs.1.scope hcurrent) hv _ hs

theorem obeys_hoist_binds (hcurrent : s.scope? = some scope)
    (hr : stepwise.Runs s (Stmt.locationsAll stmts))
    : Obeys stepwise env s (fun _ h => h.BindsAll scope stmts) (Eval.hoist stmts) := by
  have hwithin := Stmt.hoistedAll_within stmts
  have hvars : Obeys stepwise env s
      (fun _ h => ∀ v ∈ (Stmt.hoistedAll stmts).vars, h.Binds scope v.1)
      ((Stmt.hoistedAll stmts).vars.forM fun v => declareVar v.1 v.2) := by
    apply obeys_forM_each fun v _ _ hl => binds_of_leads hl
    intro v hv s' hl
    exact obeys_declareVar_binds (hl.covers (hr.covers (hwithin.vars v hv))) (hl.scope?.trans hcurrent) v.1
  apply hvars.bind
  intro _ s₁ hl₁ hbound
  have hall : ∀ {x : Run PUnit},
      Obeys stepwise env s₁
        (fun _ h => ∀ f ∈ (Stmt.hoistedAll stmts).functions, ∀ name ∈ f.name, h.Binds scope name) x →
      Obeys stepwise env s₁ (fun _ h => h.BindsAll scope stmts) x := by
    intro x hx
    -- the names of `var` stay bound while the functions are made
    have hboth := hx.and_leads
      (R := fun h => ∀ v ∈ (Stmt.hoistedAll stmts).vars, h.Binds scope v.1)
      fun s₂ hl₂ v hv => binds_of_leads hl₂ (hbound v hv)
    exact hboth.mono fun _ _ hboth => Heap.bindsAll_of_hoisted hboth.2 hboth.1
  apply hall
  apply obeys_forM_each fun f _ _ hl hf name hname => binds_of_leads hl (hf name hname)
  intro f hf s₂ hl₂
  have hf' := (hl₁.trans hl₂).runs (hr.mono (hwithin.functions f hf))
  apply (Eval.obeys_closure hf').bind
  intro v s₃ hl₃ hv
  cases hname : f.name with
  | some name =>
    apply (obeys_declare_var_binds (hl₃.covers (hf'.covers f.loc_mem_locations))
      ((hl₁.trans (hl₂.trans hl₃)).scope?.trans hcurrent) name hv).mono
    rintro _ h hname' _ ⟨⟩
    exact hname'
  | none => exact obeys_pure fun _ hname => by cases hname

end Run

namespace Eval

open Run Session

variable {why : Stop} {env : Env} {s : Session} {loc : Location} {body : List Stmt}
  {scopes : List ObjectId} {scope : ObjectId} {v : Value}

theorem agree_writeAmong (hi : s.Inside body scopes) {name : String} {st : Stmt}
    (hst : Stmt.Occurs body st) (hname : name ∈ st.declared) (hc : stepwise.Covers s loc)
    (hv : s.heap.HasPublic v)
    : Agree stepwise env s Any (writeAmong why scopes name v loc) (writeVariable name v loc) := by
  apply (obeys_writeVariable hc name hv).of_eq
  intro hs
  have hfound : s.findBinding? name = s.heap.findAmong? name scopes ∧
      (s.heap.findAmong? name scopes).isSome := by
    unfold Session.findBinding?
    rw [hi.scope]
    cases scopes with
    | nil => cases hi.around
    | cons scope scopes => exact hi.around.findBinding?_eq hs.1.heap hst hname
  unfold writeAmong writeVariable
  rw [get_bind, get_bind, hfound.1]
  obtain ⟨place, hplace⟩ := Option.isSome_iff_exists.1 hfound.2
  rw [hplace]

variable {ev : Option (List ObjectId) → Evaluator} {ev' : Evaluator}
  (hev : ∀ body scopes,
    (ev (some scopes)).AgreeWithin stepwise env (Inside body scopes) (Stmt.Occurs body) ev')
include hev

theorem agree_containedVar (hi : s.Inside body scopes) {d : Declarator} {st : Stmt}
    (hst : Stmt.Occurs body st) (hname : d.name ∈ st.declared)
    (hinit : stepwise.Runs s (Expr.locations? d.init)) (hc : stepwise.Covers s d.loc)
    : Agree stepwise env s Any (containedVar why ev scopes d) (declarator ev' .var d) := by
  unfold containedVar declarator
  cases hd : d.init with
  | some init =>
    rw [hd] at hinit
    apply ((hev body scopes).expr hi hinit).bind
    intro v s' hl hv
    exact agree_writeAmong (hi.lasts hl) hst hname (hl.covers hc) hv
  | none => exact obeys_pure trivial

/-- The scope for the parameter of a handler is in the scope where the exception is caught. -/
theorem agree_containedHandle (hi : s.Inside body scopes) {handler : Handler} {caught : Exception}
    (hhandler : ∀ st ∈ handler.body, Stmt.Occurs body st)
    (hr : stepwise.Runs s (Stmt.locationsAll handler.body)) (he : stepwise.Throws s caught)
    : Agree stepwise env s stepwise.Ends (containedHandle ev scopes handler caught)
        (handle ev' handler caught) := by
  rw [handle_eq]
  apply (obeys_enter hr he handler).bind
  intro scope? s' hl hscope
  have hr' := hl.runs hr
  have hi' := hi.lasts hl
  cases scope? with
  | none => exact (hev body scopes).block hi' hhandler hr'
  | some scope =>
    obtain ⟨hbinds, houter⟩ := hscope scope rfl
    have hinner : (s'.within scope).Inside body (scope :: scopes) := by
      have hcurrent := hi'.scope
      rw [hi.scope] at houter
      cases scopes with
      | nil => cases hi.around
      | cons outer scopes =>
        exact ⟨Session.scope?_within hcurrent scope, .handler hbinds houter hi'.around⟩
    exact agree_inScope hbinds hr' ((hev body (scope :: scopes)).block hinner hhandler)

theorem agree_containedStmt (hi : s.Inside body scopes) {st : Stmt} (hst : Stmt.Occurs body st)
    (hr : stepwise.Runs s st.locations)
    : Agree stepwise env s stepwise.Ends (containedStmt why ev scopes st) (stmt ev' st) := by
  rw [stmt_eq_stmtScoped]
  apply (hev body scopes).stmtScoped hi (fun stmts hstmts st' => hst.within hstmts) hr
  . intro s' d hi' hname hinit hc
    exact agree_containedVar hev hi' hst hname hinit hc
  . intro s' handler caught hi' hhandler hr' he
    exact agree_containedHandle hev hi' (fun st' => hst.within hhandler) hr' he

theorem agree_containedBody (hnone : (ev none).Agree stepwise env ev') (hcurrent : s.scope? = some scope)
    {f : FunctionBody} (hr : stepwise.Runs s f.locations)
    : Agree stepwise env s stepwise.Gives (containedBody why ev scope f) (functionBody ev' f) := by
  cases f with
  | expr value => exact hnone.expr hr
  | block stmts =>
    apply (obeys_hoist_binds hcurrent hr).bind
    intro _ s' hl hbound hs'
    have hcurrent' : s'.scope? = some scope := hl.scope?.trans hcurrent
    have hi : s'.Inside stmts [scope] := ⟨hcurrent', .call (hs'.1.scope hcurrent') hbound⟩
    have hrest := (hev stmts [scope]).untilReturn hi (fun st => .direct) (hl.runs hr)
    refine hrest.of_eq (fun _ => ?_) hs'
    rw [get_bind, if_pos hbound]

end Eval

theorem containedEvaluator_agree (why : Stop) (env : Env) (fuel : Nat)
    : (containedEvaluator why fuel none).Agree Session.stepwise env (evaluator fuel) ∧
        ∀ body scopes, (containedEvaluator why fuel (some scopes)).AgreeWithin Session.stepwise env
          (Session.Inside body scopes) (Stmt.Occurs body) (evaluator fuel) := by
  induction fuel with
  | zero =>
    have hzero : (evaluator 0).Agree Session.stepwise env (evaluator 0) := evaluator_agree 0
    refine ⟨hzero, fun body scopes => ⟨Session.Inside.lasts, fun _ => hzero.expr, fun _ _ => hzero.stmt⟩⟩
  | succ fuel ih =>
    obtain ⟨hnone, hsome⟩ := ih
    refine ⟨⟨?_, ?_, ?_, ?_⟩, fun body scopes => ⟨Session.Inside.lasts, ?_, ?_⟩⟩
    . intro s e hr
      exact Eval.agree_expr hnone hr
    . intro s st hr
      exact Eval.agree_stmt hnone hr
    . intro s callee args callSite hcallee hargs hc
      refine Eval.agree_callScoped hnone ?_ hcallee hargs hc
      intro scope s' f hcurrent hr
      exact Eval.agree_containedBody hsome hnone hcurrent hr
    . intro s callSite hc source origin
      exact Eval.agree_script hnone hc source origin
    . intro s e _ hr
      exact Eval.agree_expr hnone hr
    . intro s st hi hst hr
      exact Eval.agree_containedStmt hsome hi hst hr

namespace Stmt

variable {jumps : Jumps} {body stmts : List Stmt} {st outer : Stmt}

theorem wellFormedAll_of_mem_bodies (houter : outer.WellFormed jumps) (hstmts : stmts ∈ outer.bodies)
    : ∃ jumps', Stmt.WellFormedAll jumps' stmts := by
  cases outer with
  | «if» condition thenBranch elseBranch loc =>
    rcases List.mem_cons.1 hstmts with rfl | helse
    . exact ⟨_, houter.2.1⟩
    . rw [Option.mem_toList] at helse
      subst helse
      exact ⟨_, houter.2.2⟩
  | «while» condition body loc =>
    cases List.mem_singleton.1 hstmts
    exact ⟨_, houter.2⟩
  | doWhile body condition loc =>
    cases List.mem_singleton.1 hstmts
    exact ⟨_, houter.1⟩
  | «for» init condition update body loc =>
    simp only [bodies, List.mem_cons, List.not_mem_nil, or_false] at hstmts
    rcases hstmts with rfl | rfl
    . refine ⟨jumps, Stmt.wellFormedAll_iff.2 fun st hst => ?_⟩
      rw [Option.mem_toList] at hst
      subst hst
      exact houter.2.1
    . exact ⟨_, houter.2.2.2.2⟩
  | «try» stmts' handler finalizer loc =>
    simp only [bodies, List.mem_cons, List.mem_append, Option.mem_toList, Option.map_eq_some_iff] at hstmts
    rcases hstmts with rfl | ⟨⟨param, body⟩, rfl, rfl⟩ | rfl
    . exact ⟨_, houter.2.1⟩
    . exact ⟨_, houter.2.2.1⟩
    . exact ⟨_, houter.2.2.2⟩
  | block stmts' loc =>
    cases List.mem_singleton.1 hstmts
    exact ⟨_, houter⟩
  | _ => cases hstmts

theorem Occurs.wellFormed (hbody : Stmt.WellFormedAll jumps body) (hst : Occurs body st)
    : ∃ jumps', st.WellFormed jumps' := by
  induction hst with
  | direct hst => exact ⟨jumps, Stmt.wellFormedAll_iff.1 hbody _ hst⟩
  | within _ hstmts hst ih =>
    obtain ⟨jumps', houter⟩ := ih
    obtain ⟨jumps'', hall⟩ := wellFormedAll_of_mem_bodies houter hstmts
    exact ⟨jumps'', Stmt.wellFormedAll_iff.1 hall _ hst⟩

end Stmt

namespace Session

variable {s : Session}

theorem WellFormed.run_containedEvaluator (hs : s.WellFormed) {α : Type} {entry : Entry α}
    (hentry : entry.Admitted .encapsulated s) (why : Stop) (env : Env) (fuel : Nat)
    : entry.run (containedEvaluator why fuel none) env s = entry.run (evaluator fuel) env s := by
  have hentry' : entry.Admitted stepwise s := hentry
  have hs' : stepwise.Inv s := ⟨hs, fun _ hfalse => hfalse.elim⟩
  exact (Entry.agree (containedEvaluator_agree why env fuel).1 hentry' hs').1

/--
Whatever is evaluated in a well-formed session, it makes no difference to keep account of the scopes of each
call: to stop unless its own scope binds all names that are declared in the body when its first statement
runs, and to store what `var` initializes in that scope or in that of a handler of the call. This holds for
all that a host begins in its sessions. There, the function declarations in a body have names.
-/
theorem run_contained
    : (∀ s, WellFormed s → ∀ {α : Type} (entry : Entry α), entry.Admitted .encapsulated s →
          ∀ (env : Env) (fuel : Nat) (why : Stop),
            entry.run (containedEvaluator why fuel none) env s = entry.run (evaluator fuel) env s)
        ∧ (∀ s s' entry, Reachable s → s.Begins s' entry → ∀ (env : Env) (fuel : Nat) (why : Stop),
            entry.run (containedEvaluator why fuel none) env s' = entry.run (evaluator fuel) env s')
        ∧ ∀ s, Visited s → s.WellFormed ∧ s.heap.Closures fun f _ =>
            ∀ body, f.body = .block body → ∀ g, Stmt.Occurs body (.function g) → g.name.isSome := by
  refine ⟨?_, ?_, ?_⟩
  . intro s hs α entry hentry env fuel why
    exact hs.run_containedEvaluator hentry why env fuel
  . intro s s' entry hr hb env fuel why
    obtain ⟨hs', hentry⟩ := hr.idle_encapsulated.begins hb
    exact hs'.run_containedEvaluator hentry why env fuel
  . intro s hv
    refine ⟨hv.wellFormed, ?_⟩
    intro o ho f scope script hcontent body hbody g hg
    obtain ⟨name, params, fbody, loc⟩ := f
    cases hbody
    obtain ⟨-, -, hstmts⟩ := hv.orderly o ho _ scope script hcontent
    obtain ⟨jumps, hname, -⟩ := hg.wellFormed hstmts
    exact hname

/-- A function with variables that are declared in the middle of it, one of them with a name from outside. -/
def shadowing : String :=
  "var x = 1; function f() \x7b try \x7b throw 2; \x7d catch (x) \x7b var x = 3; \x7d if (x) \x7b return x; \x7d else \x7b var y = 4; \x7d x = y; return x; \x7d f(); x;"

/-- What the evaluation that keeps account of scopes gives for that script in a new session. -/
def shadowingEnd? : Option (Session × Value × Session) :=
  match Session.start {} with
  | .ok s =>
    match (containedEvaluator .outOfFuel 100 none).script shadowing "a.js" none aloneEnv s with
    | .done v s' => some (s, v, s')
    | _ => none
  | .error _ => none

theorem shadowingEnd_spec : ∃ p, shadowingEnd? = some p ∧ p.2.1 = .number (.ofNat 1) := by
  decide +kernel

/-- The variable that is called like one of the function keeps its value. -/
theorem run_contained_shadowed
    : ∃ s s', WellFormed s ∧ Reachable s
        ∧ (evaluator 100).script shadowing "a.js" none aloneEnv s = .done (.number (.ofNat 1)) s' := by
  obtain ⟨⟨s, v, s'⟩, hend, hv⟩ := shadowingEnd_spec
  unfold shadowingEnd? at hend
  split at hend
  . next s₀ hstart =>
    split at hend
    . next hscript =>
      cases hend
      cases hv
      have hr : s.Reachable := .start hstart
      obtain ⟨-, hbegins, hvisited⟩ := run_contained
      have hequal := hbegins s s _ hr (.script shadowing "a.js" none) aloneEnv 100 .outOfFuel
      exact ⟨s, s', (hvisited s hr.visited).1, hr, hequal.symm.trans hscript⟩
    . cases hend
  . cases hend

end Session
end ScriptHost
