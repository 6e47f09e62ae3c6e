import ScriptHost.Proofs.Comparison.Basic
import ScriptHost.Proofs.Discipline.Rules

/-!
This module contains the computations that match in a comparison, two of them at a time: the second one, from
the image of a session, comes to the image of the outcome of the first one. There is one rule for each way to
put computations together.
-/

namespace ScriptHost

variable {α β : Type} {C : Comparison} {Excused Excused' : Exception → Prop} {s s' : Session}

/--
The first outcome of two computations from `s`, and the second one from its image. What the first one gives
satisfies `P`.
-/
def Outcome.Matches (C : Comparison) (Excused : Exception → Prop) (s : Session)
    (P : α → Session → Prop) : Outcome α → Outcome α → Prop
  | .done a s', o => C.Leads s s' ∧ P a s' ∧ o = .done a (C.image s')
  | .thrown e s', o => C.Leads s s' ∧ (Excused e ∨ o = .thrown e (C.image s'))
  | .stopped why, o => C.Pardons why ∨ C.Allows why ∧ o = .stopped why

theorem Outcome.Matches.trans {P : α → Session → Prop} {o o' : Outcome α}
    (ho : o.Matches C Excused s' P o') (hl : C.Leads s s')
    : o.Matches C Excused s P o' := by
  cases o with
  | done a s'' => exact ⟨hl.trans ho.1, ho.2⟩
  | thrown e s'' => exact ⟨hl.trans ho.1, ho.2⟩
  | stopped why => exact ho

namespace Run

variable {P P' : α → Session → Prop} {Q : β → Session → Prop} {x x' : Run α} {f f' : α → Run β}

/-- The exceptions of the first computation that the second one need not have are the excused ones. -/
def Matches (C : Comparison) (Excused : Exception → Prop) (s : Session) (P : α → Session → Prop)
    (x x' : Run α) : Prop :=
  C.Inv s → (x C.env s).Matches C Excused s P (x' C.env' (C.image s))

/-- Nothing is asked of what a computation gives. -/
abbrev Free (_ : α) (_ : Session) : Prop :=
  True

/-- The session stays as it is. -/
abbrev Still (s : Session) (_ : α) (s' : Session) : Prop :=
  s' = s

/-- No exception is excused. -/
abbrev Never (_ : Exception) : Prop :=
  False

theorem Matches.mono (hx : Matches C Excused s P x x') (hP : ∀ a s', P a s' → P' a s')
    : Matches C Excused s P' x x' := by
  intro hs
  have hm := hx hs
  cases hout : x C.env s with
  | done a s' =>
    rw [hout] at hm
    exact ⟨hm.1, hP a s' hm.2.1, hm.2.2⟩
  | thrown e s' =>
    rw [hout] at hm
    exact hm
  | stopped why =>
    rw [hout] at hm
    exact hm

theorem Matches.excuse (hx : Matches C Excused s P x x') (hE : ∀ e, Excused e → Excused' e)
    : Matches C Excused' s P x x' := by
  intro hs
  have hm := hx hs
  cases hout : x C.env s with
  | done a s' =>
    rw [hout] at hm
    exact hm
  | thrown e s' =>
    rw [hout] at hm
    exact ⟨hm.1, hm.2.imp_left (hE e)⟩
  | stopped why =>
    rw [hout] at hm
    exact hm

/-- There is nothing to excuse if there is no more memory. -/
theorem Matches.strict (hx : Matches C C.Excuses s P x x') (hmemory : C.memory = 0)
    : Matches C Excused s P x x' :=
  hx.excuse fun _ he => absurd hmemory he.1

theorem matches_get {f f' : Session → Run β} (hf : Matches C Excused s Q (f s) (f' (C.image s)))
    : Matches C Excused s Q (get >>= f) (get >>= f') :=
  hf

theorem matches_env {f f' : Env → Run β} (hf : Matches C Excused s Q (f C.env) (f' C.env'))
    : Matches C Excused s Q (Run.env >>= f) (Run.env >>= f') :=
  hf

theorem matches_stop {why : Stop} (hwhy : C.Allows why) : Matches C Excused s P (stop why) (stop why) :=
  fun _ => .inr ⟨hwhy, rfl⟩

theorem Matches.bind (hx : Matches C Excused s P x x')
    (hf : ∀ a s', C.Leads s s' → P a s' → Matches C Excused s' Q (f a) (f' a))
    : Matches C Excused s Q (x >>= f) (x' >>= f') := by
  intro hs
  have hm := hx hs
  change (Run.bind x f C.env s).Matches C Excused s Q (Run.bind x' f' C.env' (C.image s))
  unfold Run.bind
  cases hout : x C.env s with
  | done a s' =>
    rw [hout] at hm
    obtain ⟨hl, ha, hout'⟩ := hm
    rw [hout']
    exact (hf a s' hl ha hl.inv).trans hl
  | thrown e s' =>
    rw [hout] at hm
    refine ⟨hm.1, hm.2.imp_right fun hout' => ?_⟩
    rw [hout']
  | stopped why =>
    rw [hout] at hm
    refine hm.imp_right fun ⟨hwhy, hout'⟩ => ⟨hwhy, ?_⟩
    rw [hout']

theorem matches_pure {a : α} (ha : P a s) : Matches C Excused s P (pure a) (pure a) :=
  fun hs => ⟨Comparison.leads_refl hs, ha, rfl⟩

theorem matches_throw (e : Exception) : Matches C Excused s P (throw e) (throw e) :=
  fun hs => ⟨Comparison.leads_refl hs, .inr rfl⟩

theorem matches_modify {g g' : Session → Session} (hg : C.Inv s → C.Leads s (g s))
    (himage : g' (C.image s) = C.image (g s))
    : Matches C Excused s (fun _ s' => s' = g s) (modify g) (modify g') := by
  intro hs
  refine ⟨hg hs, rfl, ?_⟩
  change Outcome.done () (g' (C.image s)) = _
  rw [himage]

theorem matches_change {g g' : Session → Session} (hg : C.Inv s → C.Leads s (g s))
    (himage : g' (C.image s) = C.image (g s))
    : Matches C Excused s Free (modify g) (modify g') :=
  (matches_modify hg himage).mono fun _ _ _ => trivial

theorem Matches.attempt {f f' : Except Exception α → Run β} (hx : Matches C Never s P x x')
    (hok : ∀ a s', C.Leads s s' → P a s' → Matches C Excused s' Q (f (.ok a)) (f' (.ok a)))
    (herror : ∀ e s', C.Leads s s' → Matches C Excused s' Q (f (.error e)) (f' (.error e)))
    : Matches C Excused s Q (attempt x >>= f) (attempt x' >>= f') := by
  intro hs
  have hm := hx hs
  change (Run.bind (Run.attempt x) f C.env s).Matches C Excused s Q
    (Run.bind (Run.attempt x') f' C.env' (C.image s))
  unfold Run.bind Run.attempt
  cases hout : x C.env s with
  | done a s' =>
    rw [hout] at hm
    obtain ⟨hl, ha, hout'⟩ := hm
    rw [hout']
    exact (hok a s' hl ha hl.inv).trans hl
  | thrown e s' =>
    rw [hout] at hm
    obtain ⟨hl, hout'⟩ := hm
    rw [hout'.resolve_left id]
    exact (herror e s' hl hl.inv).trans hl
  | stopped why =>
    rw [hout] at hm
    refine hm.imp_right fun ⟨hwhy, hout'⟩ => ⟨hwhy, ?_⟩
    rw [hout']

theorem Matches.discard (hx : Matches C Excused s P x x')
    : Matches C Excused s (fun _ s' => ∃ a, P a s') (discard x) (discard x') := by
  change Matches C Excused s _ (x >>= fun _ => pure PUnit.unit) (x' >>= fun _ => pure PUnit.unit)
  exact hx.bind fun a s' _ ha => matches_pure ⟨a, ha⟩

theorem matches_iterate {step step' : Run (Option α)} (hfuel : C.mayRunOut)
    (hstep : ∀ s', C.Leads s s' → Matches C Excused s' (fun a? s' => ∀ a ∈ a?, P a s') step step')
    (hs : C.Inv s) (n : Nat)
    : (iterate step n C.env s).Matches C Excused s P (iterate step' n C.env' (C.image s)) := by
  induction n generalizing s with
  | zero => exact .inr ⟨hfuel, rfl⟩
  | succ n ih =>
    have hm := hstep s (Comparison.leads_refl hs) hs
    unfold iterate
    cases hout : step C.env s with
    | done a? s' =>
      rw [hout] at hm
      obtain ⟨hl, ha, hout'⟩ := hm
      rw [hout']
      cases a? with
      | some a => exact ⟨hl, ha a rfl, rfl⟩
      | none => exact (ih (fun s'' hl' => hstep s'' (hl.trans hl')) hl.inv).trans hl
    | thrown e s' =>
      rw [hout] at hm
      refine ⟨hm.1, hm.2.imp_right fun hout' => ?_⟩
      rw [hout']
    | stopped why =>
      rw [hout] at hm
      refine hm.imp_right fun hm => ⟨hm.1, ?_⟩
      rw [hm.2]

theorem matches_untilSome {step step' : Run (Option α)} (hfuel : C.mayRunOut)
    (hstep : ∀ s', C.Leads s s' → Matches C Excused s' (fun a? s' => ∀ a ∈ a?, P a s') step step')
    : Matches C Excused s P (untilSome step) (untilSome step') :=
  fun hs => matches_iterate hfuel hstep hs C.env.fuel

/-- What holds before a list is gone through holds before every one of its items. -/
theorem matches_forM {I : Session → Prop} {as : List α} {f f' : α → Run PUnit} (hI : I s)
    (hf : ∀ a ∈ as, ∀ s', C.Leads s s' → I s' → Matches C Excused s' (fun _ s' => I s') (f a) (f' a))
    : Matches C Excused s (fun _ s' => I s') (as.forM f) (as.forM f') := by
  induction as generalizing s with
  | nil => exact matches_pure hI
  | cons a as ih =>
    intro hs
    refine Matches.bind (hf a List.mem_cons_self s (Comparison.leads_refl hs) hI) ?_ hs
    intro _ s' hl hI'
    apply ih hI'
    intro a' ha' s'' hl'
    exact hf a' (List.mem_cons_of_mem _ ha') s'' (hl.trans hl')

theorem matches_mapM {I : Session → Prop} {as : List α} {f f' : α → Run β} (hI : I s)
    (hf : ∀ a ∈ as, ∀ s', C.Leads s s' → I s' → Matches C Excused s' (fun _ s' => I s') (f a) (f' a))
    : Matches C Excused s (fun _ s' => I s') (as.mapM f) (as.mapM f') := by
  induction as generalizing s with
  | nil =>
    rw [List.mapM_nil, List.mapM_nil]
    exact matches_pure hI
  | cons a as ih =>
    rw [List.mapM_cons, List.mapM_cons]
    intro hs
    refine Matches.bind (hf a List.mem_cons_self s (Comparison.leads_refl hs) hI) ?_ hs
    intro b s₁ hl₁ hI₁
    apply Matches.bind
    . apply ih hI₁
      intro a' ha' s₂ hl₂
      exact hf a' (List.mem_cons_of_mem _ ha') s₂ (hl₁.trans hl₂)
    . exact fun bs s₂ _ hI₂ => matches_pure hI₂

theorem matches_foldlM {as : List α} {f f' : β → α → Run β} {b : β}
    (hf : ∀ b, ∀ a ∈ as, ∀ s', C.Leads s s' → Matches C Excused s' Free (f b a) (f' b a))
    : Matches C Excused s Free (as.foldlM f b) (as.foldlM f' b) := by
  induction as generalizing s b with
  | nil => exact matches_pure trivial
  | cons a as ih =>
    rw [List.foldlM_cons, List.foldlM_cons]
    intro hs
    refine Matches.bind (hf b a List.mem_cons_self s (Comparison.leads_refl hs)) ?_ hs
    intro b' s' hl _
    apply ih
    intro b'' a' ha' s'' hl'
    exact hf b'' a' (List.mem_cons_of_mem _ ha') s'' (hl.trans hl')

theorem matches_raise (cause : Cause) (loc : Location)
    : Matches C Excused s P (raise cause loc) (raise cause loc) := by
  apply matches_get
  rw [Comparison.image, Session.exception_raised]
  exact matches_throw _

/-- What comes after a failure under a condition runs without the condition only. -/
theorem matches_unless {c : Prop} [Decidable c] {cause : Cause} {loc : Location}
    (hx : ¬ c → Matches C Excused s P x x')
    : Matches C Excused s P (if c then (raise cause loc : Run PUnit) >>= fun _ => x else x)
        (if c then (raise cause loc : Run PUnit) >>= fun _ => x' else x') := by
  split
  . exact (matches_raise (P := fun _ _ => False) cause loc).bind fun _ _ _ hfalse => hfalse.elim
  . next hnot => exact hx hnot

theorem heap_eq (op : HeapM α) (loc : Location) (env : Env) (s : Session)
    : heap loc op env s
        =
      match Heap.exec op s.heap with
      | (.ok a, h) => .done a (s.withHeap h)
      | (.error oom, h) =>
        .thrown ((s.withHeap h).exception (.host .rangeError oom.message) loc) (s.withHeap h) := by
  unfold heap
  rw [bind_done (onHeap_eq op env s)]
  rcases Heap.exec op s.heap with ⟨_ | _, h⟩ <;> rfl

theorem leads_withHeap {h : Heap} (hh : h.Closures (C.Known s.scripts)) : C.Leads s (s.withHeap h) :=
  ⟨⟨rfl, rfl, rfl, List.prefix_rfl⟩, hh⟩

/-- An operation on the heap. There may be more memory for it in the second computation. -/
theorem matches_heap {op : HeapM α} (hlifts : Heap.Lifts C.memory op)
    (hkeeps : Heap.Keeps (C.Known s.scripts) op) (loc : Location)
    : Matches C C.Excuses s Free (heap loc op) (heap loc op) := by
  intro hs
  have hkept := hkeeps s.heap hs
  rw [heap_eq, heap_eq, show (C.image s).heap = s.heap.raised C.memory from rfl]
  rcases hexec : Heap.exec op s.heap with ⟨oom | a, h⟩
  . rw [hexec] at hkept
    refine ⟨leads_withHeap hkept, ?_⟩
    by_cases hmemory : C.memory = 0
    . right
      rw [hmemory, show s.heap.raised 0 = s.heap from rfl, hexec]
      refine congrArg₂ Outcome.thrown ?_ ?_
      . exact @Session.exception_raised 0 C.calls (s.withHeap h) _ _
      . unfold Comparison.image
        rw [hmemory]
        rfl
    . exact .inl ⟨hmemory, rfl⟩
  . rw [hexec] at hkept
    refine ⟨leads_withHeap hkept, trivial, ?_⟩
    rw [hlifts _ _ _ hexec]
    rfl

theorem matches_write (stream : Stream) (text : String)
    : Matches C Excused s Free (write stream text) (write stream text) :=
  matches_change (fun hs => ⟨⟨rfl, rfl, rfl, List.prefix_rfl⟩, hs⟩) rfl

theorem matches_setProfiler (profiler : Profiler)
    : Matches C Excused s Free (modify fun s => { s with profiler := profiler })
        (modify fun s => { s with profiler := profiler }) :=
  matches_change (fun hs => ⟨⟨rfl, rfl, rfl, List.prefix_rfl⟩, hs⟩) rfl

theorem matches_modifyMicrotasks (g : List Value → List Value)
    : Matches C Excused s Free (modify fun s => { s with microtasks := g s.microtasks })
        (modify fun s => { s with microtasks := g s.microtasks }) :=
  matches_change (fun hs => ⟨⟨rfl, rfl, rfl, List.prefix_rfl⟩, hs⟩) rfl

theorem matches_load (name : String)
    : Matches C Excused s
        (fun answer s' => s' = s ∧ C.env.sources name = some answer) (load name) (load name) := by
  apply matches_env
  rw [show C.env'.sources = C.env.sources from rfl]
  cases hanswer : C.env.sources name with
  | some answer => exact matches_pure ⟨rfl, rfl⟩
  | none => exact matches_stop hanswer

theorem matches_report (e : Exception) : Matches C Excused s Free (report e) (report e) :=
  matches_get (matches_write _ _)

/-- A computation in other frames, which are left afterwards in any case. -/
theorem matches_moved {P : α → Prop} {stack : CallStack} {depth : Nat}
    {f f' g g' : Session → Session}
    (hf : f s = s.moved stack depth) (hf' : f' (C.image s) = C.image (s.moved stack depth))
    (hg : ∀ s', s'.stack = stack → s'.expressionDepth = depth →
      g s' = s'.moved s.stack s.expressionDepth)
    (hg' : ∀ s', s'.stack = stack → s'.expressionDepth = depth →
      g' (C.image s') = C.image (s'.moved s.stack s.expressionDepth))
    (hx : Matches C Excused (s.moved stack depth) (fun a _ => P a) x x')
    : Matches C Excused s (fun a _ => P a) (do modify f; ensuring x g)
        (do modify f'; ensuring x' g') := by
  intro hs
  have hleave : ∀ s', C.Leads (s.moved stack depth) s' → C.Leads s (g s') := by
    intro s' hl
    rw [hg s' hl.stack hl.depth]
    exact ⟨⟨rfl, rfl, hl.global, hl.scripts⟩, hl.inv⟩
  have hm := hx hs
  change (ensuring x g C.env (f s)).Matches C Excused s (fun a _ => P a)
    (ensuring x' g' C.env' (f' (C.image s)))
  rw [hf, hf']
  unfold ensuring
  cases hout : x C.env (s.moved stack depth) with
  | done a s' =>
    rw [hout] at hm
    obtain ⟨hl, ha, hout'⟩ := hm
    rw [hout']
    refine ⟨hleave s' hl, ha, ?_⟩
    dsimp only
    rw [hg s' hl.stack hl.depth, hg' s' hl.stack hl.depth]
  | thrown e s' =>
    rw [hout] at hm
    obtain ⟨hl, hout'⟩ := hm
    refine ⟨hleave s' hl, hout'.imp_right fun hout' => ?_⟩
    rw [hout']
    dsimp only
    rw [hg s' hl.stack hl.depth, hg' s' hl.stack hl.depth]
  | stopped why =>
    rw [hout] at hm
    refine hm.imp_right fun ⟨hwhy, hout'⟩ => ⟨hwhy, ?_⟩
    rw [hout']

variable [C.Lawful]

theorem matches_display (hc : C.IsClear s) (v : Value)
    : Matches C Excused s (Still s) (display v) (display v) := by
  apply matches_env
  apply matches_get
  have htext : ((C.image s).displayContext C.env'.config).display? [] v C.env'.fuel
      = (s.displayContext C.env.config).display? [] v C.env.fuel := by
    rw [Comparison.image, Session.display?_raised]
    unfold Session.displayContext
    rw [show C.env'.config = C.config from rfl, Comparison.Lawful.maxExpressionDepth]
    rfl
  rw [htext]
  cases hdisplay : (s.displayContext C.env.config).display? [] v C.env.fuel with
  | some text => exact matches_pure rfl
  | none =>
    have hfuel : C.Allows .outOfFuel := Comparison.Lawful.mayRunOut_of_display hc hdisplay
    exact matches_stop hfuel

theorem matches_throwValue (hc : C.IsClear s) (v : Value) (loc : Location)
    : Matches C Excused s P (throwValue v loc) (throwValue v loc) := by
  apply (matches_display hc v).bind
  rintro text s' _ rfl
  exact matches_get (matches_throw _)

end Run
end ScriptHost
