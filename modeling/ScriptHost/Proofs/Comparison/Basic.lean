import ScriptHost.Proofs.Discipline.Basic
import ScriptHost.Proofs.Session.Raised
import ScriptHost.Proofs.Syntax.Code

/-!
This module contains comparisons. A comparison is of two evaluations of the same code, where the second one
may have room for more memory and more calls. It says which code is run, which functions there are, and for
which reasons the first evaluation may end without an answer. It is lawful if code leads to such code only.
-/

namespace ScriptHost

/-- The exception is that of a request for memory. -/
def Exception.isOutOfMemory (e : Exception) : Bool :=
  match e.fault.cause with
  | .host .rangeError _ => true
  | _ => false

/-- A statement that may contain the given jumps may end so. -/
def Completion.Allowed (jumps : Jumps) : Completion → Prop
  | .normal => True
  | .break | .continue => jumps.inLoop
  | .return _ => jumps.inFunction

namespace Session

/-- The same script is running in as many frames, and no script has been forgotten. -/
structure Stays (s s' : Session) : Prop where
  script : s'.currentScript? = s.currentScript?
  depth : s'.stack.depth = s.stack.depth
  maxDepth : s'.stack.maxDepth = s.stack.maxDepth
  scripts : s.scripts.toList <+: s'.scripts.toList

end Session

structure Comparison where
  env : Env
  /-- The limits of the second evaluation. -/
  config : Config
  /-- The bytes that the second evaluation may use more. -/
  memory : Nat
  /-- The calls that may be running more in the second evaluation. -/
  calls : Nat
  /-- The code that may be run by evaluations that go so deep. -/
  Admits : Nat → Session → Code → Prop
  /-- The functions that the scripts have made. -/
  Knows : Array Script → ScriptId → Function → Prop
  /-- What texts may be taken from. -/
  Clear : DisplayContext → Prop
  /-- The reasons for which the first evaluation may stop alone. -/
  Pardons : Stop → Prop
  /-- The evaluations may run out of fuel. -/
  mayRunOut : Prop
  /-- Objects that are no functions may be called. -/
  anyCallee : Prop

namespace Comparison

variable (C : Comparison)

def env' : Env :=
  { C.env with config := C.config }

/-- The session of the second evaluation. -/
def image (s : Session) : Session :=
  s.raised C.memory C.calls

def Known (scripts : Array Script) (f : Function) (id : ScriptId) : Prop :=
  f.WellFormed ∧ C.Knows scripts id f

def Inv (s : Session) : Prop :=
  s.heap.Closures (C.Known s.scripts)

structure Leads (s s' : Session) : Prop extends s.Resumes s' where
  inv : C.Inv s'

def Runs (n : Nat) (s : Session) (c : Code) : Prop :=
  c.WellFormed ∧ C.Admits n s c

def IsClear (s : Session) : Prop :=
  C.Clear (s.displayContext C.env.config)

/-- The reasons for which both evaluations may stop. -/
def Allows : Stop → Prop
  | .outOfFuel => C.mayRunOut
  | .unread name => C.env.sources name = none

/-- The exceptions of the first evaluation that the second one need not have. -/
def Excuses (e : Exception) : Prop :=
  C.memory ≠ 0 ∧ e.isOutOfMemory

/-- There is room for a call, unless there is none in the second evaluation either. -/
def Room (s : Session) : Prop :=
  C.calls = 0 ∨ s.stack.depth < s.stack.maxDepth

class Lawful : Prop where
  maxExpressionDepth : C.config.maxExpressionDepth = C.env.config.maxExpressionDepth
  knows_mono {scripts scripts' : Array Script} {id : ScriptId} {f : Function}
    (hscripts : scripts.toList <+: scripts'.toList) (hf : C.Knows scripts id f)
    : C.Knows scripts' id f
  admits_mono {n m : Nat} {s : Session} {c : Code} (hnm : n ≤ m) (hc : C.Admits n s c)
    : C.Admits m s c
  admits_stays {n : Nat} {s s' : Session} {c : Code} (hs : s.Stays s') (hc : C.Admits n s c)
    : C.Admits n s' c
  admits_part {n : Nat} {s : Session} {c p : Code} (hc : C.Admits n s c) (hp : p ∈ c.parts)
    : C.Admits (n - 1) s p
  knows_literal {n : Nat} {s : Session} {f : Function} (hc : C.Admits n s (.expr (.function f)))
    : C.Knows s.scripts (s.currentScript?.getD ⟨0⟩) f
  knows_declared {n : Nat} {s : Session} {jumps : Jumps} {f : Function}
    (hc : C.Admits n s (.stmt jumps (.function f)))
    : C.Knows s.scripts (s.currentScript?.getD ⟨0⟩) f
  admits_load {n : Nat} {s : Session} {name source : String} (hc : C.Admits n s .call)
    (hsource : C.env.sources name = some (.ok source))
    : C.Admits (n - 1) s (.load source)
  admits_body {n : Nat} {s : Session} {frame : Frame} {stack : CallStack} {f : Function}
    (hc : C.Admits n s .call) (hf : C.Knows s.scripts frame.script f)
    (hpush : s.stack.push? frame = some stack)
    : C.Admits n (s.moved stack s.expressionDepth) (.body f.body)
  admits_script {n : Nat} {s : Session} {frame : Frame} {stack : CallStack}
    {origin source : String} {stmts : List Stmt} (hc : C.Admits n s (.load source))
    (hparse : parse source = .ok stmts) (hscript : s.script? frame.script = some ⟨origin, source⟩)
    (hpush : s.stack.push? frame = some stack)
    : C.Admits n (s.moved stack s.expressionDepth) (.script stmts)
  /-- No rule can be applied without fuel. -/
  mayRunOut_of_zero {s : Session} {c : Code} (hc : C.Admits 0 s c) : C.mayRunOut
  mayRunOut_of_loop {n : Nat} {s : Session} {jumps : Jumps} {st : Stmt}
    (hc : C.Admits n s (.stmt jumps st)) (hloop : st.isLoop)
    : C.mayRunOut
  mayRunOut_of_display {c : DisplayContext} {v : Value} (hc : C.Clear c)
    (hnone : c.display? [] v C.env.fuel = none)
    : C.mayRunOut

variable {C} {s s' s'' : Session} {n m : Nat} {c p : Code}

theorem Leads.stays (hl : C.Leads s s') : s.Stays s' where
  script := by
    unfold Session.currentScript?
    rw [hl.stack]
  depth := by rw [hl.stack]
  maxDepth := by rw [hl.stack]
  scripts := hl.scripts

theorem leads_refl (hs : C.Inv s) : C.Leads s s :=
  ⟨⟨rfl, rfl, rfl, List.prefix_rfl⟩, hs⟩

theorem Leads.trans (hl : C.Leads s s') (hl' : C.Leads s' s'') : C.Leads s s'' where
  stack := hl'.stack.trans hl.stack
  depth := hl'.depth.trans hl.depth
  global := hl'.global.trans hl.global
  scripts := hl.scripts.trans hl'.scripts
  inv := hl'.inv

theorem Inv.knows (hs : C.Inv s) {id : ObjectId} {f : Function} {scope : Option ObjectId}
    {script : ScriptId} (hcontent : s.heap.content id = .closure f scope script)
    : f.WellFormed ∧ C.Knows s.scripts script f := by
  unfold Heap.content Heap.object at hcontent
  rw [Array.getD_eq_getD_getElem?] at hcontent
  cases ho : s.heap.objects[id.index]? with
  | none =>
    rw [ho] at hcontent
    cases hcontent
  | some o =>
    rw [ho] at hcontent
    exact hs o (Array.mem_of_getElem? ho) f scope script hcontent

variable [C.Lawful]

theorem Inv.of_heap (hs : s'.heap.Closures (C.Known s.scripts))
    (hscripts : s.scripts.toList <+: s'.scripts.toList)
    : C.Inv s' := by
  intro o ho f scope script hcontent
  obtain ⟨hf, hknown⟩ := hs o ho f scope script hcontent
  exact ⟨hf, Lawful.knows_mono hscripts hknown⟩

namespace Runs

theorem stays (hr : C.Runs n s c) (hs : s.Stays s') : C.Runs n s' c :=
  ⟨hr.1, Lawful.admits_stays hs hr.2⟩

theorem nested (hr : C.Runs n s c) : C.Runs n (s.moved s.stack (s.expressionDepth + 1)) c :=
  hr.stays ⟨rfl, rfl, rfl, List.prefix_rfl⟩

theorem leads (hr : C.Runs n s c) (hl : C.Leads s s') : C.Runs n s' c :=
  hr.stays hl.stays

theorem part (hr : C.Runs (n + 1) s c) (hp : p ∈ c.parts) : C.Runs n s p :=
  ⟨hr.1.part hp, Lawful.admits_part hr.2 hp⟩

/-- A part of a part is no deeper than that. -/
theorem inner (hr : C.Runs n s c) (hp : p ∈ c.parts) : C.Runs n s p :=
  ⟨hr.1.part hp, Lawful.admits_mono (Nat.sub_le n 1) (Lawful.admits_part hr.2 hp)⟩

theorem contains (hr : C.Runs n s c) (hp : c.Contains p) : C.Runs n s p := by
  induction hp with
  | refl => exact hr
  | tail _ hp ih => exact ih.inner hp

theorem literal {f : Function} (hr : C.Runs n s (.expr (.function f)))
    : C.Known s.scripts f (s.currentScript?.getD ⟨0⟩) :=
  ⟨hr.1, Lawful.knows_literal hr.2⟩

theorem declared {jumps : Jumps} {stmts : List Stmt} {f : Function} (hr : C.Runs n s c)
    (hparts : c.parts = stmts.map (.stmt jumps)) (hf : f ∈ (Stmt.hoistedAll stmts).functions)
    : C.Known s.scripts f (s.currentScript?.getD ⟨0⟩) := by
  obtain ⟨jumps', hcontains⟩ := Code.contains_of_mem_hoistedAll hparts hf
  have hr' := hr.contains hcontains
  exact ⟨hr'.1.2.2, Lawful.knows_declared hr'.2⟩

theorem load {name source : String} (hr : C.Runs (n + 1) s .call)
    (hsource : C.env.sources name = some (.ok source))
    : C.Runs n s (.load source) :=
  ⟨trivial, Lawful.admits_load hr.2 hsource⟩

end Runs

/-- The comparison of all evaluations with those under higher limits. -/
def raising (env : Env) (memory calls : Nat) (Pardons : Stop → Prop) : Comparison where
  env := env
  config := env.config.raised memory calls
  memory := memory
  calls := calls
  Admits _ _ _ := True
  Knows _ _ _ := True
  Clear _ := True
  Pardons := Pardons
  mayRunOut := True
  anyCallee := True

instance {env : Env} {memory calls : Nat} {Pardons : Stop → Prop}
    : (raising env memory calls Pardons).Lawful where
  maxExpressionDepth := rfl
  knows_mono _ _ := trivial
  admits_mono _ _ := trivial
  admits_stays _ _ := trivial
  admits_part _ _ := trivial
  knows_literal _ := trivial
  knows_declared _ := trivial
  admits_load _ _ := trivial
  admits_body _ _ _ := trivial
  admits_script _ _ _ _ := trivial
  mayRunOut_of_zero _ := trivial
  mayRunOut_of_loop _ _ := trivial
  mayRunOut_of_display _ _ := trivial

end Comparison
end ScriptHost
