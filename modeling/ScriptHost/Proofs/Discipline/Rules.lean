import ScriptHost.Proofs.Discipline.Basic

/-!
This module contains the computations that keep a discipline, two of them at a time: from a session that
satisfies the invariant both come to the same outcome, and this is one that the discipline allows. There
is one rule for each way to put computations together.
-/

namespace ScriptHost

variable {α β : Type} {D : Discipline} {env : Env} {s s' : Session}

/-- The outcome of a computation that goes on from `s`. What it gives satisfies `P`. -/
def Outcome.Kept (D : Discipline) (s : Session) (P : α → Heap → Prop) : Outcome α → Prop
  | .done a s' => D.Leads s s' ∧ P a s'.heap
  | .thrown e s' => D.Leads s s' ∧ D.Throws s' e
  | .stopped _ => True

theorem Outcome.Kept.trans [D.Lawful] {P : α → Heap → Prop} {o : Outcome α} (ho : o.Kept D s' P)
    (hl : D.Leads s s')
    : o.Kept D s P := by
  cases o with
  | done a s'' => exact ⟨hl.trans ho.1, ho.2⟩
  | thrown e s'' => exact ⟨hl.trans ho.1, ho.2⟩
  | stopped why => trivial

namespace Run

variable {P P' : α → Heap → Prop} {Q : β → Heap → Prop} {x x' : Run α} {f f' : α → Run β}

/-- Two computations have the same outcome in the session `s`, and it keeps the discipline. -/
def Agree (D : Discipline) (env : Env) (s : Session) (P : α → Heap → Prop) (x x' : Run α) : Prop :=
  D.Inv s → x env s = x' env s ∧ (x env s).Kept D s P

abbrev Obeys (D : Discipline) (env : Env) (s : Session) (P : α → Heap → Prop) (x : Run α) : Prop :=
  Agree D env s P x x

/-- Nothing is asked of what a computation gives. -/
abbrev Any (_ : α) (_ : Heap) : Prop :=
  True

theorem Agree.mono (hx : Agree D env s P x x') (hP : ∀ a h, P a h → P' a h) : Agree D env s P' x x' := by
  intro hs
  obtain ⟨heq, hk⟩ := hx hs
  refine ⟨heq, ?_⟩
  cases hout : x env s with
  | done a s' =>
    rw [hout] at hk
    exact ⟨hk.1, hP a _ hk.2⟩
  | thrown e s' =>
    rw [hout] at hk
    exact hk
  | stopped why => trivial

/-- What holds in all sessions that one leads to also holds after a computation. -/
theorem Agree.and_leads {R : Heap → Prop} (hx : Agree D env s P x x')
    (hR : ∀ s', D.Leads s s' → R s'.heap)
    : Agree D env s (fun a h => P a h ∧ R h) x x' := by
  intro hs
  obtain ⟨heq, hk⟩ := hx hs
  refine ⟨heq, ?_⟩
  cases hout : x env s with
  | done a s' =>
    rw [hout] at hk
    exact ⟨hk.1, hk.2, hR s' hk.1⟩
  | thrown e s' =>
    rw [hout] at hk
    exact hk
  | stopped why => trivial

/-- It is enough to come to the same outcome as a computation that agrees. -/
theorem Agree.of_eq {y : Run α} (hx : Agree D env s P x x') (heq : D.Inv s → y env s = x env s)
    : Agree D env s P y x' := by
  intro hs
  obtain ⟨heq', hk⟩ := hx hs
  rw [← heq hs] at heq' hk
  exact ⟨heq', hk⟩

theorem agree_get {f f' : Session → Run β} (hf : Agree D env s Q (f s) (f' s))
    : Agree D env s Q (get >>= f) (get >>= f') :=
  hf

theorem agree_env {f f' : Env → Run β} (hf : Agree D env s Q (f env) (f' env))
    : Agree D env s Q (Run.env >>= f) (Run.env >>= f') :=
  hf

theorem obeys_stop (why : Stop) : Obeys D env s P (stop why) :=
  fun _ => ⟨rfl, trivial⟩

variable [D.Lawful]

theorem Agree.bind (hx : Agree D env s P x x')
    (hf : ∀ a s', D.Leads s s' → P a s'.heap → Agree D env s' Q (f a) (f' a))
    : Agree D env s Q (x >>= f) (x' >>= f') := by
  intro hs
  obtain ⟨heq, hk⟩ := hx hs
  change Run.bind x f env s = Run.bind x' f' env s ∧ (Run.bind x f env s).Kept D s Q
  unfold Run.bind
  rw [← heq]
  cases hout : x env s with
  | done a s' =>
    rw [hout] at hk
    obtain ⟨heq', hk'⟩ := hf a s' hk.1 hk.2 hk.1.inv
    exact ⟨heq', hk'.trans hk.1⟩
  | thrown e s' =>
    rw [hout] at hk
    exact ⟨rfl, hk⟩
  | stopped why => exact ⟨rfl, trivial⟩

theorem obeys_pure {a : α} (ha : P a s.heap) : Obeys D env s P (pure a) :=
  fun hs => ⟨rfl, Discipline.leads_refl hs, ha⟩

theorem obeys_throw {e : Exception} (he : D.Throws s e) : Obeys D env s P (throw e) :=
  fun hs => ⟨rfl, Discipline.leads_refl hs, he⟩

theorem obeys_modify {g : Session → Session} (hg : D.Makes s (g s)) : Obeys D env s Any (modify g) :=
  fun hs => ⟨rfl, Discipline.leads_change hs hg, trivial⟩

theorem agree_modify {g : Session → Session} {f f' : PUnit → Run β} (hg : D.Makes s (g s))
    (hf : Agree D env (g s) Q (f ⟨⟩) (f' ⟨⟩))
    : Agree D env s Q (modify g >>= f) (modify g >>= f') := by
  intro hs
  have hl := Discipline.leads_change hs hg
  obtain ⟨heq, hk⟩ := hf hl.inv
  exact ⟨heq, hk.trans hl⟩

/-- A change that makes no difference. -/
theorem obeys_modify_of_eq {g : Session → Session} (hg : g s = s) : Obeys D env s Any (modify g) := by
  intro hs
  refine ⟨rfl, ?_⟩
  change D.Leads s (g s) ∧ True
  rw [hg]
  exact ⟨Discipline.leads_refl hs, trivial⟩

theorem Agree.attempt {f f' : Except Exception α → Run β} (hx : Agree D env s P x x')
    (hok : ∀ a s', D.Leads s s' → P a s'.heap → Agree D env s' Q (f (.ok a)) (f' (.ok a)))
    (herror : ∀ e s', D.Leads s s' → D.Throws s' e → Agree D env s' Q (f (.error e)) (f' (.error e)))
    : Agree D env s Q (attempt x >>= f) (attempt x' >>= f') := by
  intro hs
  obtain ⟨heq, hk⟩ := hx hs
  change Run.bind (Run.attempt x) f env s = Run.bind (Run.attempt x') f' env s ∧
    (Run.bind (Run.attempt x) f env s).Kept D s Q
  unfold Run.bind Run.attempt
  rw [← heq]
  cases hout : x env s with
  | done a s' =>
    rw [hout] at hk
    obtain ⟨heq', hk'⟩ := hok a s' hk.1 hk.2 hk.1.inv
    exact ⟨heq', hk'.trans hk.1⟩
  | thrown e s' =>
    rw [hout] at hk
    obtain ⟨heq', hk'⟩ := herror e s' hk.1 hk.2 hk.1.inv
    exact ⟨heq', hk'.trans hk.1⟩
  | stopped why => exact ⟨rfl, trivial⟩

theorem Agree.discard (hx : Agree D env s P x x') : Agree D env s Any (discard x) (discard x') := by
  change Agree D env s Any (x >>= fun _ => pure PUnit.unit) (x' >>= fun _ => pure PUnit.unit)
  apply hx.bind
  intro a s' _ _
  exact obeys_pure trivial

/-- What a step of a loop ends with, if it is the last one. -/
abbrev Ends (P : α → Heap → Prop) (a? : Option α) (h : Heap) : Prop :=
  ∀ a, a? = some a → P a h

theorem agree_iterate {step step' : Run (Option α)}
    (hstep : ∀ s', D.Leads s s' → Agree D env s' (Ends P) step step') (hs : D.Inv s) (n : Nat)
    : iterate step n env s = iterate step' n env s ∧ (iterate step n env s).Kept D s P := by
  induction n generalizing s with
  | zero => exact ⟨rfl, trivial⟩
  | succ n ih =>
    obtain ⟨heq, hk⟩ := hstep s (Discipline.leads_refl hs) hs
    unfold iterate
    rw [← heq]
    cases hout : step env s with
    | done a? s' =>
      rw [hout] at hk
      obtain ⟨hl, ha⟩ := hk
      cases a? with
      | some a => exact ⟨rfl, hl, ha a rfl⟩
      | none =>
        obtain ⟨heq', hk'⟩ := ih (fun s'' hl' => hstep s'' (hl.trans hl')) hl.inv
        exact ⟨heq', hk'.trans hl⟩
    | thrown e s' =>
      rw [hout] at hk
      exact ⟨rfl, hk⟩
    | stopped why => exact ⟨rfl, trivial⟩

theorem agree_untilSome {step step' : Run (Option α)}
    (hstep : ∀ s', D.Leads s s' → Agree D env s' (Ends P) step step')
    : Agree D env s P (untilSome step) (untilSome step') :=
  fun hs => agree_iterate hstep hs env.fuel

theorem agree_forM {as : List α} {f f' : α → Run PUnit}
    (hf : ∀ a ∈ as, ∀ s', D.Leads s s' → Agree D env s' Any (f a) (f' a))
    : Agree D env s Any (as.forM f) (as.forM f') := by
  induction as generalizing s with
  | nil => exact obeys_pure trivial
  | cons a as ih =>
    intro hs
    refine Agree.bind (hf a List.mem_cons_self s (Discipline.leads_refl hs)) ?_ hs
    intro _ s' hl _
    apply ih
    intro a' ha' s'' hl'
    exact hf a' (List.mem_cons_of_mem _ ha') s'' (hl.trans hl')

/-- What each turn of a loop brings about holds for all of them after the loop, if it lasts. -/
theorem obeys_forM_each {as : List α} {f : α → Run PUnit} {R : α → Heap → Prop}
    (hR : ∀ a s s', D.Leads s s' → R a s.heap → R a s'.heap)
    (hf : ∀ a ∈ as, ∀ s', D.Leads s s' → Obeys D env s' (fun _ => R a) (f a))
    : Obeys D env s (fun _ h => ∀ a ∈ as, R a h) (as.forM f) := by
  induction as generalizing s with
  | nil => exact obeys_pure fun a ha => absurd ha List.not_mem_nil
  | cons a as ih =>
    intro hs
    refine Agree.bind (hf a List.mem_cons_self s (Discipline.leads_refl hs)) ?_ hs
    intro _ s₁ hl₁ ha
    have hrest : Obeys D env s₁ (fun _ h => ∀ a' ∈ as, R a' h) (as.forM f) := by
      apply ih
      intro a' ha' s₂ hl₂
      exact hf a' (List.mem_cons_of_mem _ ha') s₂ (hl₁.trans hl₂)
    apply (hrest.and_leads fun s₂ hl₂ => hR a s₁ s₂ hl₂ ha).mono
    exact fun _ _ hall => List.forall_mem_cons.2 ⟨hall.2, hall.1⟩

theorem agree_mapM {as : List α} {f f' : α → Run β}
    (hQ : ∀ b s s', D.Leads s s' → Q b s.heap → Q b s'.heap)
    (hf : ∀ a ∈ as, ∀ s', D.Leads s s' → Agree D env s' Q (f a) (f' a))
    : Agree D env s (fun bs h => ∀ b ∈ bs, Q b h) (as.mapM f) (as.mapM f') := by
  induction as generalizing s with
  | nil =>
    rw [List.mapM_nil, List.mapM_nil]
    exact obeys_pure (fun b hb => absurd hb List.not_mem_nil)
  | cons a as ih =>
    rw [List.mapM_cons, List.mapM_cons]
    intro hs
    refine Agree.bind (hf a List.mem_cons_self s (Discipline.leads_refl hs)) ?_ hs
    intro b s₁ hl₁ hb
    apply Agree.bind
    . apply ih
      intro a' ha' s₂ hl₂
      exact hf a' (List.mem_cons_of_mem _ ha') s₂ (hl₁.trans hl₂)
    . intro bs s₂ hl₂ hbs
      apply obeys_pure
      intro b' hb'
      rcases List.mem_cons.1 hb' with rfl | hb'
      . exact hQ _ _ _ hl₂ hb
      . exact hbs b' hb'

theorem agree_foldlM {as : List α} {f f' : β → α → Run β} {b : β} (hb : Q b s.heap)
    (hf : ∀ b, ∀ a ∈ as, ∀ s', D.Leads s s' → Q b s'.heap → Agree D env s' Q (f b a) (f' b a))
    : Agree D env s Q (as.foldlM f b) (as.foldlM f' b) := by
  induction as generalizing s b with
  | nil => exact obeys_pure hb
  | cons a as ih =>
    rw [List.foldlM_cons, List.foldlM_cons]
    intro hs
    refine Agree.bind (hf b a List.mem_cons_self s (Discipline.leads_refl hs) hb) ?_ hs
    intro b' s' hl hb'
    apply ih hb'
    intro b'' a' ha' s'' hl' hb''
    exact hf b'' a' (List.mem_cons_of_mem _ ha') s'' (hl.trans hl') hb''

theorem obeys_raise {cause : Cause} {loc : Location} (hc : D.Covers s loc)
    (hcause : cause.errorClass?.isSome)
    : Obeys D env s P (raise cause loc) := by
  intro hs
  exact agree_get (obeys_throw (Discipline.Lawful.throws_failure hs hc hcause)) hs

/-- What comes after a failure under a condition runs without the condition only. -/
theorem obeys_unless {c : Prop} [Decidable c] {cause : Cause} {loc : Location} (hc : D.Covers s loc)
    (hcause : cause.errorClass?.isSome) (hx : ¬ c → Obeys D env s P x)
    : Obeys D env s P (if c then (raise cause loc : Run PUnit) >>= fun _ => x else x) := by
  split
  . apply (obeys_raise (P := fun _ _ => False) hc hcause).bind
    intro _ _ _ hfalse
    exact hfalse.elim
  . next hnot => exact hx hnot

omit [D.Lawful] in
/-- An operation on the heap succeeds, or fails at the place that it is given. -/
theorem heap_kept {op : HeapM α} (hop : Heap.Ensures (D.Leaves s) P op s.heap) (loc : Location)
    (env : Env)
    : (∃ a h, heap loc op env s = .done a (s.withHeap h) ∧ D.Leaves s h ∧ P a h) ∨
      ∃ (oom : OutOfMemory) (h : Heap), heap loc op env s
          = .thrown ((s.withHeap h).exception (.host .rangeError oom.message) loc) (s.withHeap h) ∧
        D.Leaves s h := by
  obtain ⟨hleaves, hP⟩ := hop
  have hrun := onHeap_eq op env s
  rcases hexec : Heap.exec op s.heap with ⟨oom | a, h⟩
  . rw [hexec] at hleaves hrun
    right
    refine ⟨oom, h, ?_, hleaves⟩
    unfold heap
    rw [bind_done hrun]
    rfl
  . rw [hexec] at hleaves hP hrun
    left
    refine ⟨a, h, ?_, hleaves, hP a rfl⟩
    unfold heap
    rw [bind_done hrun]
    rfl

theorem obeys_heap {op : HeapM α} {loc : Location} (hc : D.Covers s loc)
    (hop : D.Inv s → Heap.Ensures (D.Leaves s) P op s.heap)
    : Obeys D env s P (heap loc op) := by
  intro hs
  refine ⟨rfl, ?_⟩
  rcases heap_kept (hop hs) loc env with ⟨a, h, hout, hl, ha⟩ | ⟨oom, h, hout, hl⟩
  . rw [hout]
    exact ⟨hl, ha⟩
  . rw [hout]
    exact ⟨hl, Discipline.Lawful.throws_failure hl.inv (hl.covers hc) rfl⟩

/-- A single operation on the heap. -/
theorem obeys_store {x : HeapM α} {op : Heap.Op} {loc : Location}
    (hc : D.Covers s loc) (hop : D.Does s op) (hf : s.Fits op)
    (hx : (Heap.exec x s.heap).2 = op.apply s.heap)
    : Obeys D env s Any (heap loc x) := by
  apply obeys_heap hc
  intro hs
  have hensures := Discipline.ensures_store hx (Discipline.leads_refl hs) hop hf
  exact hensures.mono fun _ _ _ _ => trivial

theorem obeys_allocate {content : Content} {loc : Location} (hc : D.Covers s loc)
    (hop : D.Does s (.allocate content))
    : Obeys D env s (fun id h => D.Made content id h ∧ h.Has id ∧ h.content id = content)
        (heap loc (Heap.allocate content)) :=
  obeys_heap hc fun hs => Discipline.ensures_allocate (Discipline.leads_refl hs) hop

theorem obeys_write (stream : Stream) (text : String) : Obeys D env s Any (write stream text) :=
  obeys_modify (Discipline.Change.makes (.host _ _) rfl)

theorem obeys_load (name : String) : Obeys D env s Any (load name) := by
  apply agree_env
  cases env.sources name with
  | some answer => exact obeys_pure trivial
  | none => exact obeys_stop _

theorem obeys_display (v : Value) : Obeys D env s Any (display v) := by
  apply agree_env
  apply agree_get
  cases (s.displayContext env.config).display? [] v env.fuel with
  | some text => exact obeys_pure trivial
  | none => exact obeys_stop _

theorem obeys_throwValue {v : Value} {loc : Location} (hc : D.Covers s loc) (hv : D.Admits s.heap v)
    : Obeys D env s P (throwValue v loc) := by
  apply (obeys_display v).bind
  intro text s' hl _
  apply agree_get
  intro hs'
  exact obeys_throw (Discipline.Lawful.throws_value hs' (hl.covers hc) (hl.admits hv)) hs'

theorem obeys_report (e : Exception) : Obeys D env s Any (report e) :=
  agree_get (obeys_write _ _)

omit [D.Lawful] in
/-- A computation in other frames, which are left afterwards in any case. -/
theorem agree_moved [D.LawfulUnder env.config] {stack : CallStack} {depth : Nat}
    {f g : Session → Session} (hf : f s = s.moved stack depth)
    (hm : D.Enters env.config s stack depth)
    (hg : ∀ s', s'.stack = stack → s'.expressionDepth = depth →
      g s' = s'.moved s.stack s.expressionDepth)
    (hx : Agree D env (s.moved stack depth) P x x')
    : Agree D env s P (do modify f; ensuring x g) (do modify f; ensuring x' g) := by
  intro hs
  have hleave : ∀ s', D.Leads (s.moved stack depth) s' → D.Leads s (g s') := by
    intro s' hl
    rw [hg s' hl.stack hl.depth]
    obtain ⟨hgoes, hinv⟩ := Discipline.LawfulUnder.leave hs hm hl
    exact ⟨⟨rfl, rfl, hl.global, hl.scripts⟩, hl.heap, hgoes, hinv⟩
  obtain ⟨heq, hk⟩ := hx (Discipline.LawfulUnder.enter hs hm)
  change ensuring x g env (f s) = ensuring x' g env (f s) ∧ (ensuring x g env (f s)).Kept D s P
  rw [hf]
  unfold ensuring
  rw [← heq]
  cases hout : x env (s.moved stack depth) with
  | done a s' =>
    rw [hout] at hk
    refine ⟨rfl, hleave s' hk.1, ?_⟩
    rw [hg s' hk.1.stack hk.1.depth]
    exact hk.2
  | thrown e s' =>
    rw [hout] at hk
    refine ⟨rfl, hleave s' hk.1, ?_⟩
    rw [hg s' hk.1.stack hk.1.depth]
    exact Discipline.LawfulUnder.throws_leave hs hm hk.1 hk.2
  | stopped why => exact ⟨rfl, trivial⟩

end Run
end ScriptHost
