import ScriptHost.Proofs.Comparison.Observed
import ScriptHost.Proofs.Session.Blame
import ScriptHost.Proofs.Session.Display
import ScriptHost.Proofs.Syntax.Excerpt

/-!
This module contains that closures stand in the scripts that made them: at all moments of a session, the
function of a closure is one of those in the script that the closure names. So its text is where the
location of the function says, and this text is a function on its own.
-/

namespace ScriptHost

/-- What all functions of a script have in common. It stays so when there are more scripts. -/
class Script.Trait (K : Array Script → ScriptId → Function → Prop) : Prop where
  mono {scripts scripts' : Array Script} {id : ScriptId} {f : Function}
    (hscripts : scripts.toList <+: scripts'.toList) (hf : K scripts id f)
    : K scripts' id f
  of_parse {scripts : Array Script} {id : ScriptId} {sc : Script} {stmts : List Stmt} {f : Function}
    (hscript : scripts[id.index]? = some sc) (hparse : parse sc.source = .ok stmts)
    (hf : f ∈ Stmt.functionsAll stmts)
    : K scripts id f

namespace Comparison

variable {K : Array Script → ScriptId → Function → Prop} {env : Env}

/-- An evaluation is compared with one under the same limits, on code of which all functions have a trait. -/
def having (K : Array Script → ScriptId → Function → Prop) (env : Env) : Comparison where
  env := env
  config := env.config
  memory := 0
  calls := 0
  Admits _ s c := ∀ f ∈ c.functions, K s.scripts (s.currentScript?.getD ⟨0⟩) f
  Knows scripts id f := ∀ g ∈ f.functions, K scripts id g
  Clear _ := True
  Pardons _ := False
  mayRunOut := True
  anyCallee := False

theorem having_level : (having K env).Level :=
  ⟨rfl, rfl, rfl⟩

instance [Script.Trait K] : (having K env).Lawful where
  maxExpressionDepth := rfl
  knows_mono hscripts hf := fun g hg => Script.Trait.mono hscripts (hf g hg)
  admits_mono _ hc := hc
  admits_stays hs hc := fun f hf => by
    rw [hs.script]
    exact Script.Trait.mono hs.scripts (hc f hf)
  admits_part hc hp := fun f hf => hc f (Code.functions_part hp hf)
  knows_literal hc := hc
  knows_declared hc := hc
  admits_load _ _ := nofun
  admits_body {n s frame stack f} _ hf hpush := fun g hg => by
    have hcurrent : (s.moved stack s.expressionDepth).currentScript? = some frame.script :=
      congrArg (Option.map Frame.script) (CallStack.current?_push? hpush)
    rw [hcurrent]
    cases f
    exact hf g (List.mem_cons_of_mem _ hg)
  admits_script {n s frame stack origin source stmts} _ hparse hscript hpush := fun g hg => by
    have hcurrent : (s.moved stack s.expressionDepth).currentScript? = some frame.script :=
      congrArg (Option.map Frame.script) (CallStack.current?_push? hpush)
    rw [hcurrent]
    exact Script.Trait.of_parse hscript hparse hg
  mayRunOut_of_zero _ := trivial
  mayRunOut_of_loop _ _ := trivial
  mayRunOut_of_display _ _ := trivial

end Comparison

/-- The function stands in the script, at any depth. -/
def Function.StandsIn (scripts : Array Script) (id : ScriptId) (f : Function) : Prop :=
  ∃ sc stmts, scripts[id.index]? = some sc ∧ parse sc.source = .ok stmts ∧ f ∈ Stmt.functionsAll stmts

instance : Script.Trait Function.StandsIn where
  mono hscripts hf := by
    obtain ⟨sc, stmts, hscript, hparse, hmem⟩ := hf
    exact ⟨sc, stmts, Session.script_of_append hscripts hscript, hparse, hmem⟩
  of_parse hscript hparse hf := ⟨_, _, hscript, hparse, hf⟩

namespace Session

variable {s s' t : Session} {env : Env}

/-- All closures have well-formed functions, which stand in their scripts. -/
def Rooted (s : Session) : Prop :=
  s.heap.Closures fun f id => f.WellFormed ∧ ∀ g ∈ f.functions, Function.StandsIn s.scripts id g

theorem Rooted.inv (hs : s.Rooted) (env : Env) : (Comparison.having Function.StandsIn env).Inv s :=
  hs

theorem Begins.starts_having {K : Array Script → ScriptId → Function → Prop} [Script.Trait K]
    {entry : Entry Value} (hw : s.WellFormed) (hb : s.Begins s' entry) (n : Nat)
    : entry.Starts (.having K env) n s' :=
  hb.starts hw nofun fun _ _ _ _ => nofun

theorem Rooted.begins {entry : Entry Value} (hs : s.Rooted) (hb : s.Begins s' entry) : s'.Rooted := by
  cases hb <;> exact hs

theorem Rooted.ends {entry : Entry Value} {n : Nat} (hs : s.Rooted) (hw : s.WellFormed)
    (hb : s.Begins s' entry) (hout : (entry.run (evaluator n) env s').session? = some t)
    : t.Rooted :=
  (Entry.leads_of_session?_matching Comparison.having_level ((hs.begins hb).inv env)
    (hb.starts_having hw n) (fun _ => trivial) (fun _ => id) hout).inv

theorem Rooted.passes {entry : Entry Value} {n : Nat} (hs : s.Rooted) (hw : s.WellFormed)
    (hb : s.Begins s' entry) (hp : entry.Passes n env s' t)
    : t.Rooted :=
  (Entry.throughout_inv Comparison.having_level ((hs.begins hb).inv env) (hb.starts_having hw n)
    (fun _ => trivial) fun _ => id).of_passes hp

theorem rooted_start {config : Config} (hstart : Session.start config = .ok s) : s.Rooted :=
  closures_start hstart

/-- The host itself makes no closures. -/
theorem Reachable.rooted (hr : s.Reachable) : s.Rooted := by
  induction hr with
  | start hstart => exact rooted_start hstart
  | @returned env s s' source origin callSite v hr hscript ih =>
    have hb : s.Begins s (.script source origin callSite) := .script source origin callSite
    exact ih.ends hr.visited.wellFormed hb (congrArg Outcome.session? hscript)
  | @failed env s s' source origin callSite e hr hscript ih =>
    have hb : s.Begins s (.script source origin callSite) := .script source origin callSite
    exact ih.ends hr.visited.wellFormed hb (congrArg Outcome.session? hscript)
  | task hr ht ih =>
    cases ht with
    | skipped => exact ih
    | returned hnext htask hcall =>
      exact ih.ends hr.visited.wellFormed (.task hnext htask) (congrArg Outcome.session? hcall)
    | @failed _ _ _ _ s₁ _ hnext htask hcall hreport =>
      have hs₁ : s₁.Rooted :=
        ih.ends hr.visited.wellFormed (.task hnext htask) (congrArg Outcome.session? hcall)
      cases hreport
      exact hs₁
  | host _ profiler console ih => exact ih

theorem Visited.rooted (hv : t.Visited) : t.Rooted := by
  obtain ⟨config, s, hstart, hl⟩ := hv
  have hreachable : ∀ {s'}, Turns s s' → s'.Reachable := fun hts =>
    reachable_iff_turns.2 ⟨config, s, hstart, hts⟩
  cases hl with
  | idle hts => exact (hreachable hts).rooted
  | running hts hb hp =>
    have hr := hreachable hts
    exact hr.rooted.passes hr.visited.wellFormed hb hp

theorem display_closure {id : ObjectId} {f : Function} {scope : Option ObjectId} {script : ScriptId}
    {sc : Script} (hcontent : s.heap.content id = .closure f scope script)
    (hscript : s.script? script = some sc) (config : Config) (sources : Sources) (fuel : Nat)
    : Run.display (.object id) ⟨config, sources, fuel + 1⟩ s
        = .done (sc.slice f.loc.offset f.loc.len) s := by
  have htext : (s.displayContext config).display? [] (.object id) (fuel + 1)
      = some ((s.displayContext config).functionText f script) := by
    rw [DisplayContext.display?.eq_2]
    simp only [displayContext, hcontent]
  rw [display_eq, htext]
  unfold DisplayContext.functionText displayContext
  rw [show s.scripts[script.index]? = some sc from hscript]

/--
The text of a function in a script, between parentheses, is that function again. At all moments of a session,
the text of a closure is this text, from the script that the closure was made by.
-/
theorem closures_readAlone
    : (∀ (sc : Script) (stmts : List Stmt), parse sc.source = .ok stmts → ∀ f ∈ Stmt.functionsAll stmts, sc.ReadsAlone f)
        ∧ ∀ s : Session, s.Visited → ∀ id f scope script, s.heap.content id = .closure f scope script →
          ∃ sc stmts, s.script? script = some sc ∧ parse sc.source = .ok stmts
            ∧ f ∈ Stmt.functionsAll stmts
            ∧ ∀ config sources fuel, Run.display (.object id) ⟨config, sources, fuel + 1⟩ s
                = .done (sc.slice f.loc.offset f.loc.len) s := by
  refine ⟨fun sc stmts hparse f hf => readsAlone_of_mem_functions hparse hf, ?_⟩
  intro s hv id f scope script hcontent
  have hs := hv.rooted.inv aloneEnv
  obtain ⟨-, hknown⟩ := hs.knows hcontent
  obtain ⟨sc, stmts, hscript, hparse, hf⟩ := hknown f (by cases f; exact List.mem_cons_self)
  exact ⟨sc, stmts, hscript, hparse, hf, display_closure hcontent hscript⟩

/-- A session after a script that makes a function, and that function. -/
def literal? : Option (Value × Session) :=
  match Session.start {} with
  | .ok s =>
    match Run.script "var f = function (x) \x7b return x; \x7d; f;" "a.js" none aloneEnv s with
    | .done v s => some (v, s)
    | _ => none
  | .error _ => none

theorem literal_spec
    : ∃ p, literal? = some p ∧ p.1 = .object ⟨12⟩
        ∧ (p.2.heap.content ⟨12⟩ matches .closure ..)
        ∧ (p.2.displayContext {}).display? [] p.1 1 = some "function (x) \x7b return x; \x7d" := by
  decide +kernel

/-- The text of that function is the one that stands in the script. -/
theorem closures_readAlone_literal
    : ∃ (s : Session) (id : ObjectId) (f : Function) (script : ScriptId) (sc : Script),
        s.Visited ∧ (∃ scope, s.heap.content id = .closure f scope script)
          ∧ s.script? script = some sc ∧ sc.ReadsAlone f
          ∧ sc.slice f.loc.offset f.loc.len = "function (x) \x7b return x; \x7d" := by
  obtain ⟨⟨v, s⟩, hliteral, hv, hclosure, htext⟩ := literal_spec
  dsimp only at hv hclosure htext
  rw [hv] at htext
  unfold literal? at hliteral
  split at hliteral
  . next s₀ hstart =>
    split at hliteral
    . next hscript =>
      cases hliteral
      have hvisited : s.Visited := (Reachable.returned (.start hstart) hscript).visited
      cases hcontent : s.heap.content ⟨12⟩ with
      | closure f scope script =>
        obtain ⟨hreads, hclosures⟩ := closures_readAlone
        obtain ⟨sc, stmts, hsc, hparse, hf, hdisplay⟩ := hclosures s hvisited _ f scope script hcontent
        refine ⟨s, ⟨12⟩, f, script, sc, hvisited, ⟨scope, hcontent⟩, hsc, hreads sc stmts hparse f hf, ?_⟩
        have hshown := hdisplay {} .unknown 0
        rw [display_eq, htext] at hshown
        exact (Outcome.done.inj hshown).1.symm
      | _ =>
        rw [hcontent] at hclosure
        cases hclosure
    . cases hliteral
  . cases hliteral

end Session
end ScriptHost
