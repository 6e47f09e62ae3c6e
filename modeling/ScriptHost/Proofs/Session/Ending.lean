import ScriptHost.Proofs.Heap.Numbering
import ScriptHost.Proofs.Session.Closures
import ScriptHost.Proofs.Syntax.LoopFree

/-!
This module contains that scripts without loops end, if all texts of values do that they may ask for. How
deep their evaluation goes is bounded by the calls that there is room for and the height of scripts. There is
no other way on than down: an exception that is caught leads into a part of the same code.
-/

namespace ScriptHost

theorem Heap.Paid.objects_le {limit : Nat} {h : Heap} (hp : Paid 0 (.empty limit) h)
    : h.objects.size ≤ limit := by
  have hsize := hp.size_le_limit
  have hcount := h.count_le_size
  unfold count at hcount
  omega

theorem DisplayContext.shows_of_not_endless {c : DisplayContext} {v : Value} {n : Nat} (he : ¬ c.Endless v)
    (hn : (c.maxDepth + 1) * (c.heap.objects.size + 1) ≤ n)
    : c.Shows n ([], v) := by
  apply shows_of_settles (settles_of_not_endless he .refl) (Nat.le_refl _)
  . exact fun _ _ hneeds => settles_of_not_endless he hneeds
  . rw [Nat.succ_mul] at hn
    change c.maxDepth * (c.heap.objects.size + 1) + c.heap.objects.size < n
    omega

namespace Discipline

/-- The limit is of some kind, and all that there is has been charged to it. -/
def charged (allowed : Nat → Prop) : Discipline :=
  .invariant (fun s => ∃ limit, allowed limit ∧ Heap.Paid 0 (.empty limit) s.heap) fun _ _ => True

variable {allowed : Nat → Prop} {config : Config}

instance : (charged allowed).Lawful := by
  apply invariant_lawful (fun _ => trivial) (fun _ _ _ _ _ => trivial)
  rintro s s' ⟨limit, hlimit, hp⟩ hc
  refine ⟨trivial, limit, hlimit, ?_⟩
  cases hc with
  | store => exact hp.trans (Heap.paid_apply _ _)
  | const => exact hp.trans (Heap.paid_apply (.setProperty _ _ _) _)
  | queue | dequeue | script | host => exact hp

instance : (charged allowed).LawfulUnder config where
  enter hs _ := hs
  leave _ _ hl := ⟨trivial, hl.inv⟩
  throws_leave _ _ _ _ := trivial

end Discipline

namespace Session

variable {s : Session}

theorem Visited.paid (hv : s.Visited) : Heap.Paid 0 (.empty s.heap.limit) s.heap := by
  have hstart : ∀ config s, Session.start config = .ok s → (Discipline.charged fun _ => True).Inv s := by
    intro config s hstart
    obtain ⟨global, -, rfl⟩ := start_eq hstart
    have hkept : ∀ (op : Heap.Op) h, Heap.Paid 0 (.empty config.heapLimit) h →
        Heap.Paid 0 (.empty config.heapLimit) (op.apply h) :=
      fun op h hp => hp.trans (Heap.paid_apply op h)
    exact ⟨config.heapLimit, trivial, Heap.kept_newGlobal hkept (.refl _)⟩
  obtain ⟨limit, -, hp⟩ := Visited.inv hstart hv
  rwa [show s.heap.limit = limit from hp.limit]

/-- All functions come from scripts, which are no higher than that. -/
theorem Visited.closures_height (hv : s.Visited)
    : s.heap.Closures fun f _ => f.WellFormed ∧ f.height ≤ Script.maxHeight := by
  intro o ho f scope script hcontent
  obtain ⟨hf, hstands⟩ := hv.rooted o ho f scope script hcontent
  obtain ⟨sc, stmts, -, hparse, hmem⟩ := hstands f (by cases f; exact List.mem_cons_self)
  exact ⟨hf, (Stmt.height_of_mem_functionsAll stmts hmem).trans (Script.height_le_maxHeight hparse)⟩

/-- How many calls there is room for. -/
def room (s : Session) : Nat :=
  s.stack.maxDepth - s.stack.depth

theorem room_push {frame : Frame} {stack : CallStack} (hpush : s.stack.push? frame = some stack) (depth : Nat)
    : s.room = (s.moved stack depth).room + 1 := by
  obtain ⟨hroom, rfl⟩ := CallStack.push?_eq_some_iff.1 hpush
  have hdepth : (s.stack.frames.push frame).size = s.stack.depth + 1 := Array.size_push _
  change s.stack.maxDepth - s.stack.depth = s.stack.maxDepth - (s.stack.frames.push frame).size + 1
  rw [hdepth]
  omega

end Session

/-- Loop-free code with which an evaluation comes to an end that goes so deep. -/
structure Code.Ends (env : Env) (n : Nat) (s : Session) (c : Code) : Prop where
  sources : ∀ name text, env.sources name = some (.ok text) → (load text).LoopFree
  loopFree : c.LoopFree
  height : c.height ≤ Script.maxHeight + 1
  fuel : c.height + s.room * (Script.maxHeight + 1) < n

namespace Comparison

/-- An evaluation of loop-free code may stop for one reason alone, if it is not the lack of fuel. -/
def ending (why : Stop) (env : Env) : Comparison where
  env := env
  config := env.config
  memory := 0
  calls := 0
  Admits := Code.Ends env
  Knows _ _ f := (Code.body f.body).LoopFree ∧ f.height ≤ Script.maxHeight
  Clear c := ∀ v, c.Shows env.fuel ([], v)
  Pardons := (· = why)
  mayRunOut := False
  anyCallee := True

variable {why : Stop} {env : Env}

theorem ending_level : (ending why env).Level :=
  ⟨rfl, rfl, rfl⟩

instance : (ending why env).Lawful where
  maxExpressionDepth := rfl
  knows_mono _ hf := hf
  admits_mono hnm hc := { hc with fuel := Nat.lt_of_lt_of_le hc.fuel hnm }
  admits_stays hs hc := by
    refine { hc with fuel := ?_ }
    unfold Session.room
    rw [hs.maxDepth, hs.depth]
    exact hc.fuel
  admits_part {n s c p} hc hp := by
    have hlt := Code.height_part hp
    have hheight := hc.height
    have hfuel := hc.fuel
    exact ⟨hc.sources, hc.loopFree.part hp, by omega, by omega⟩
  knows_literal hc := ⟨hc.loopFree.body rfl, Nat.le_of_succ_le_succ hc.height⟩
  knows_declared hc := ⟨hc.loopFree.body rfl, Nat.le_of_succ_le_succ hc.height⟩
  admits_load {n s name source} hc hsource := by
    have hfuel := hc.fuel
    refine ⟨hc.sources, hc.sources name source hsource, Nat.zero_le _, ?_⟩
    change 0 + _ < n - 1
    change 1 + _ < n at hfuel
    omega
  admits_body {n s frame stack f} hc hf hpush := by
    have hfuel := hc.fuel
    have hheight : f.body.height ≤ Script.maxHeight := by
      cases f
      exact hf.2
    refine ⟨hc.sources, hf.1, Nat.succ_le_succ hheight, ?_⟩
    rw [Session.room_push hpush s.expressionDepth, Nat.succ_mul] at hfuel
    change f.body.height + 1 + _ < n
    change 1 + _ < n at hfuel
    omega
  admits_script {n s frame stack origin source stmts} hc hparse hscript hpush := by
    have hfuel := hc.fuel
    have hheight := Script.height_le_maxHeight hparse
    refine ⟨hc.sources, hc.loopFree.script hparse, Nat.succ_le_succ hheight, ?_⟩
    rw [Session.room_push hpush s.expressionDepth, Nat.succ_mul] at hfuel
    change Stmt.heightAll stmts + 1 + _ < n
    change 0 + _ < n at hfuel
    omega
  mayRunOut_of_zero hc := absurd hc.fuel (Nat.not_lt_zero _)
  mayRunOut_of_loop hc hloop := by
    have hnot : Stmt.isLoop _ = false := (Code.loopFree_iff.1 hc.loopFree).1
    rw [hnot] at hloop
    cases hloop
  mayRunOut_of_display {c v} hc hnone := by
    have hshows : (c.display? [] v env.fuel).isSome := hc v
    rw [show c.display? [] v env.fuel = none from hnone] at hshows
    cases hshows

end Comparison

namespace Session

variable {s : Session} {env : Env} {source origin : String} {callSite : Option Location}

/-- All texts that have an end take no more levels than there are bytes, and arrays inside each other. -/
theorem shows_of_display {config : Config} {sources : Sources} {limit n : Nat}
    (hshown : ∀ v, ∃ fuel text, Run.display v ⟨config, sources, fuel⟩ s = .done text s)
    (hp : Heap.Paid 0 (.empty limit) s.heap) (hn : (config.maxExpressionDepth + 1) * (limit + 1) ≤ n)
    (v : Value)
    : (s.displayContext config).Shows n ([], v) := by
  obtain ⟨fuel, text, hdone⟩ := hshown v
  apply DisplayContext.shows_of_not_endless
  . exact fun he => he.not_shows (display_eq_done_iff.1 ⟨text, hdone⟩)
  . exact (Nat.mul_le_mul_left _ (Nat.succ_le_succ hp.objects_le)).trans hn

/-- How deep the evaluation of a loop-free script may have to go. -/
def enoughFuel (s : Session) (config : Config) : Nat :=
  (config.maxExpressionDepth + 1) * (s.heap.limit + 1) + s.stack.maxDepth * (Script.maxHeight + 1) + 1

/--
A script ends that has no loop, in a session in which no closure has one and with sources that have none, if
at all its moments the texts of all values have an end. It can only stop to ask for a source.
-/
theorem loopFree_ends (hv : s.Visited) (hunit : (Code.load source).LoopFree)
    (hclosures : s.heap.Closures fun f _ => (Code.body f.body).LoopFree)
    (hsources : ∀ name text, env.sources name = some (.ok text) → (Code.load text).LoopFree)
    (hshown : (Entry.script source origin callSite).Throughout env.fuel env s fun t =>
      ∀ v, ∃ fuel text, Run.display v ⟨env.config, env.sources, fuel⟩ t = .done text t)
    (hfuel : s.enoughFuel env.config ≤ env.fuel)
    : (Run.script source origin callSite env s).session?.isSome
        ∨ ∃ name, env.sources name = none
          ∧ Run.script source origin callSite env s = .stopped (.unread name) := by
  have hdeep : s.room * (Script.maxHeight + 1) ≤ s.stack.maxDepth * (Script.maxHeight + 1) :=
    Nat.mul_le_mul_right _ (Nat.sub_le _ _)
  unfold enoughFuel at hfuel
  have hadmits : Code.Ends env env.fuel s (.load source) := by
    refine ⟨hsources, hunit, Nat.zero_le _, ?_⟩
    change 0 + _ < env.fuel
    omega
  -- there are never more objects than bytes, as all that there is takes memory
  have hpaid := hshown.and_inv (D := .charged (· = s.heap.limit)) ⟨_, rfl, hv.paid⟩ fun _ _ _ => trivial
  have hclear : (Entry.script source origin callSite).Throughout env.fuel env s fun t =>
      ∀ v, (t.displayContext env.config).Shows env.fuel ([], v) := by
    apply hpaid.mono
    rintro t ⟨hshown, limit, rfl, hp⟩
    exact shows_of_display hshown hp (by omega)
  have hm (why : Stop) : (Run.script source origin callSite env s).Matches (.ending why env) Run.Never s
      Run.Free (Run.script source origin callSite env s) := by
    have hinv : (Comparison.ending why env).Inv s := by
      intro o ho f scope script hcontent
      obtain ⟨hf, hheight⟩ := hv.closures_height o ho f scope script hcontent
      exact ⟨hf, hclosures o ho f scope script hcontent, hheight⟩
    have hstarts : (Entry.script source origin callSite).Starts (.ending why env) env.fuel s :=
      ⟨trivial, hadmits⟩
    exact Entry.Throughout.matches Comparison.ending_level hinv hstarts hclear rfl fun _ => id
  cases hout : Run.script source origin callSite env s with
  | done v s' => exact .inl rfl
  | thrown e s' => exact .inl rfl
  | stopped why =>
    rw [hout] at hm
    -- the reason is not the one for which the evaluation may stop alone, if that is another one
    cases why with
    | outOfFuel =>
      rcases hm (.unread "") with hpardon | ⟨hallows, -⟩
      . cases hpardon
      . cases hallows
    | unread name =>
      rcases hm .outOfFuel with hpardon | ⟨hallows, -⟩
      . cases hpardon
      . exact .inr ⟨name, hallows, rfl⟩

/-- No error shows another object. -/
def quiet (s : Session) : Bool :=
  s.heap.objects.toList.all fun o =>
    match o.content with
    | .error _ => o.slots.toList.all fun v => v.object?.isNone
    | _ => true

/-- An observer who stops if an error might show itself. -/
def loudness (s : Session) : Option Stop :=
  if s.quiet then none else some .outOfFuel

theorem display_of_quiet (hs : s.quiet) (config : Config) (sources : Sources) (v : Value)
    : ∃ fuel text, Run.display v ⟨config, sources, fuel⟩ s = .done text s := by
  have hmessage : ∀ v w, (s.displayContext config).Quotes v w → w.object? = none := by
    rintro v w ⟨id, errorClass, rfl, herror, hmessage⟩
    have hid : s.heap.Has id := Heap.has_of_content herror nofun
    have hobject := List.all_eq_true.1 hs (s.heap.object id) (Array.mem_def.1 (Heap.object_mem hid))
    rw [show (s.heap.object id).content = .error errorClass from herror] at hobject
    obtain ⟨slot, -, hslot⟩ := Option.bind_eq_some_iff.1 hmessage
    have hw := List.all_eq_true.1 hobject w (Array.mem_def.1 (Array.mem_of_getElem? hslot))
    exact Option.isNone_iff_eq_none.1 hw
  have hendless : ¬ (s.displayContext config).Endless v := by
    rintro ⟨visiting, w, -, hcycle⟩
    obtain ⟨u, ⟨id, errorClass, rfl, -⟩, -⟩ := Relation.TransGen.head'_iff.1 hcycle
    obtain ⟨u, -, hquotes⟩ := Relation.TransGen.tail'_iff.1 hcycle
    cases hmessage _ _ hquotes
  have hshows := DisplayContext.shows_of_not_endless hendless (Nat.le_refl _)
  obtain ⟨text, hdone⟩ := display_eq_done_iff.2 hshows
  exact ⟨_, text, hdone⟩

theorem quiet_of_loudness (hs : s.loudness = none) : s.quiet := by
  by_cases hquiet : s.quiet
  . exact hquiet
  . unfold loudness at hs
    rw [if_neg hquiet] at hs
    cases hs

/-- A script that recurses until there is no room left, and again in each handler. -/
def recursing : String :=
  "function f() \x7b try \x7b f(); \x7d catch (e) \x7b ghostify('b.js'); \x7d finally \x7b f; \x7d \x7d"
    ++ "var r; try \x7b f(); \x7d catch \x7b r = 'full'; \x7d r;"

def recursingEnv : Env where
  config := { maxCallDepth := 3, maxExpressionDepth := 20, heapLimit := 10000 }
  sources := .ofList [("b.js", "f();")]
  fuel := 20000000

theorem recursing_sources (name : String)
    : recursingEnv.sources name = some (.ok "f();") ∨ ∃ e, recursingEnv.sources name = some (.error e) := by
  cases hb : name == "b.js" <;> simp [recursingEnv, Sources.ofList, List.lookup, hb]

theorem hasNoLoop_recursing : Code.hasNoLoop 20 (.load recursing) ∧ Code.hasNoLoop 20 (.load "f();") := by
  decide +kernel

/-- A new session, and what becomes of it if someone observes that no error ever shows another object. -/
def recursed? : Option (Session × Value × Session) :=
  match Session.start recursingEnv.config with
  | .ok s =>
    match (observedEvaluator loudness recursingEnv.fuel).script recursing "a.js" none recursingEnv s with
    | .done v s' => some (s, v, s')
    | _ => none
  | .error _ => none

theorem recursed_spec : ∃ p, recursed? = some p ∧ p.2.1 = .string "full" := by
  decide +kernel

/-- That script ends, and it has found that there is no room left. -/
theorem loopFree_ends_recursing
    : ∃ s, s.Reachable ∧ s.enoughFuel recursingEnv.config ≤ recursingEnv.fuel
        ∧ (Run.script recursing "a.js" none recursingEnv s).session?.isSome
        ∧ ∃ s', Run.script recursing "a.js" none recursingEnv s = .done (.string "full") s' := by
  obtain ⟨⟨s, v, s'⟩, hrecursed, hv⟩ := recursed_spec
  obtain ⟨hunit, hsource⟩ := hasNoLoop_recursing
  unfold recursed? at hrecursed
  split at hrecursed
  . next s₀ hstart =>
    split at hrecursed
    . next hobserved =>
      cases hrecursed
      cases hv
      have hvisited : s.Visited := (Reachable.start hstart).visited
      obtain ⟨-, hcalls, hmemory⟩ := start_within hstart
      have hfuel : s.enoughFuel recursingEnv.config ≤ recursingEnv.fuel := by
        unfold enoughFuel
        rw [hcalls, hmemory]
        decide
      have hclosures : s.heap.Closures fun f _ => (Code.body f.body).LoopFree := closures_start hstart
      have hsources : ∀ name text, recursingEnv.sources name = some (.ok text) →
          (Code.load text).LoopFree := by
        intro name text hname
        rcases recursing_sources name with hok | ⟨e, herror⟩
        . rw [hok] at hname
          cases hname
          exact Code.loopFree_of_hasNoLoop hsource
        . rw [herror] at hname
          cases hname
      have hinv : (Comparison.raising recursingEnv 0 0 fun _ => True).Inv s :=
        fun o ho f scope script hcontent => ⟨(hvisited.rooted o ho f scope script hcontent).1, trivial⟩
      have hquiet : (Entry.script recursing "a.js" none).Throughout recursingEnv.fuel recursingEnv s
          fun t => t.loudness = none :=
        Entry.throughout_of_observed ⟨rfl, rfl, rfl⟩ hinv ⟨trivial, trivial⟩ (fun _ => trivial)
          (fun _ => trivial) (congrArg Outcome.session? hobserved)
      have hshown := hquiet.mono fun t ht =>
        display_of_quiet (quiet_of_loudness ht) recursingEnv.config recursingEnv.sources
      refine ⟨s, .start hstart, hfuel, ?_, s', (hquiet _ fun _ ht => ht).symm.trans hobserved⟩
      obtain hends | ⟨name, hunread, -⟩ := loopFree_ends hvisited (Code.loopFree_of_hasNoLoop hunit) hclosures
        hsources hshown hfuel
      . exact hends
      . rcases recursing_sources name with hok | ⟨e, herror⟩
        . rw [hok] at hunread
          cases hunread
        . rw [herror] at hunread
          cases hunread
    . cases hrecursed
  . cases hrecursed

end Session
end ScriptHost
