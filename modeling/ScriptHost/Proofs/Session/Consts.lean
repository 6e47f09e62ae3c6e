import ScriptHost.Proofs.Session.Linked

/-!
This module contains what becomes of the declarations of constants at top level. One that fails for want
of memory leaves a constant that can neither be read nor be declared again.
-/

namespace ScriptHost.Session

open Run

variable {s : Session} {name : String} {loc : Location}

/-- A constant that is no property of the global object. -/
structure Stranded (s : Session) (name : String) : Prop where
  const : name ∈ s.consts
  property : s.heap.hasProperty s.global name = false

instance (s : Session) (name : String) : Decidable (s.Stranded name) :=
  decidable_of_iff (name ∈ s.consts ∧ s.heap.hasProperty s.global name = false)
    ⟨fun hx => ⟨hx.1, hx.2⟩, fun hx => ⟨hx.1, hx.2⟩⟩

theorem Stranded.read (hx : s.Stranded name) (hscope : s.scope? = none) (loc : Location) (env : Env)
    : readVariable name loc env s = .thrown (s.exception (.undefinedVariable name) loc) s := by
  have hread : s.readVariable? name = none := by
    unfold readVariable? findBinding?
    rw [hscope]
    exact Heap.property?_eq_none hx.property
  unfold readVariable
  rw [bind_done (rfl : get env s = .done s s), hread]
  rfl

theorem Stranded.declare (hx : s.Stranded name) (hscope : s.scope? = none) (kind : DeclareKind)
    (v : Value) (loc : Location) (env : Env)
    : Run.declare kind name v loc env s = .thrown (s.exception (.redeclaration name) loc) s := by
  have hcontains : s.consts.contains name = true := by simpa using hx.const
  unfold Run.declare
  rw [bind_done (rfl : get env s = .done s s), hscope]
  dsimp only
  rw [if_pos hcontains]
  rfl

/--
What a declaration of a constant at top level comes to, and the session after it. From a failure on, every
attempt to read the constant fails as if there was none, and every other declaration as if there was one.
-/
inductive Declared (s : Session) (name : String) (loc : Location) : Outcome Unit → Prop where
  | done (hproperty : s.heap.hasProperty s.global name = true) : Declared s name loc (.done () s)
  | failed {e : OutOfMemory} (hstranded : s.Stranded name)
      (hread : ∀ loc env,
        readVariable name loc env s = .thrown (s.exception (.undefinedVariable name) loc) s)
      (hdeclare : ∀ kind v loc env,
        declare kind name v loc env s = .thrown (s.exception (.redeclaration name) loc) s)
    : Declared s name loc (.thrown (s.exception (.host .rangeError e.message) loc) s)

/-- The name of the constant is noted in any case, and is a property only if there is memory for it. -/
theorem Linked.declare_const (hs : s.Linked) (hscope : s.scope? = none) (hfree : name ∉ s.consts)
    (v : Value) (loc : Location) (env : Env)
    : ∃ s', s'.consts = s.consts ++ [name] ∧
        Declared s' name loc (Run.declare .const name v loc env s) := by
  obtain ⟨s', hs', hdeclare⟩ := declare_global hscope hfree .const v loc env
  have hconsts : s'.consts = s.consts ++ [name] := by
    rw [hs']
    rfl
  have hscope' : s'.scope? = none := by
    rw [hs']
    exact hscope
  refine ⟨s', hconsts, ?_⟩
  rw [hdeclare]
  rcases hset : Heap.exec (Heap.setProperty s.global name v) s.heap with ⟨e | _, h⟩
  . have hstranded : s'.Stranded name := by
      refine ⟨by rw [hconsts]; simp, ?_⟩
      rw [hs']
      change (Heap.exec (Heap.setProperty s.global name v) s.heap).2.hasProperty s.global name = false
      rw [hset]
      exact (Heap.hasProperty_setProperty_error hset).1
    exact .failed hstranded (hstranded.read hscope') (hstranded.declare hscope')
  . apply Declared.done
    rw [hs']
    change (Heap.exec (Heap.setProperty s.global name v) s.heap).2.hasProperty s.global name = true
    rw [hset]
    exact hs.heap.hasProperty_setProperty hs.roots.global hset

/--
The constants of a session of a host are properties of the global object, unless there is less memory left
than a shape takes. In that case a declaration that fails leaves its constant stranded.
-/
theorem reachable_consts (hr : s.Reachable)
    : (∀ name ∈ s.consts,
        s.heap.hasProperty s.global name = true ∨ s.heap.limit < s.heap.used + shapeSize)
        ∧ ∀ t : Session, t.Linked → t.scope? = none → ∀ name ∉ t.consts, ∀ v loc env,
            ∃ t', t'.consts = t.consts ++ [name] ∧
              Declared t' name loc (Run.declare .const name v loc env t) :=
  ⟨hr.linked.consts, fun _ ht hscope _ hfree v loc env => ht.declare_const hscope hfree v loc env⟩

/-- What becomes of a script with a constant, if there is no memory for one more variable. -/
def strandedConst? : Option (Session × Exception × Session) :=
  match Session.start { heapLimit := 1950 } with
  | .ok s =>
    match Run.script "const x = 1;" "a.js" none aloneEnv s with
    | .thrown e s' => some (s, e, s')
    | _ => none
  | .error _ => none

theorem strandedConst_spec : ∃ p, strandedConst? = some p ∧ p.2.2.Stranded "x" := by
  decide +kernel

theorem reachable_of_strandedConst? {p : Session × Exception × Session}
    (hp : strandedConst? = some p)
    : p.1.consts = [] ∧ Run.script "const x = 1;" "a.js" none aloneEnv p.1 = .thrown p.2.1 p.2.2 ∧
        p.2.2.Reachable := by
  unfold strandedConst? at hp
  split at hp
  . next s hstart =>
    split at hp
    . next hthrown =>
      cases hp
      refine ⟨?_, hthrown, .failed (.start hstart) hthrown⟩
      obtain ⟨global, -, rfl⟩ := start_eq hstart
      rfl
    . cases hp
  . cases hp

/-- There is not even memory for the shape that the global object would need. -/
theorem reachable_consts_stranded
    : ∃ s : Session, s.Reachable ∧ s.Stranded "x" ∧ s.heap.limit < s.heap.used + shapeSize := by
  obtain ⟨p, hp, hstranded⟩ := strandedConst_spec
  have hr := (reachable_of_strandedConst? hp).2.2
  refine ⟨p.2.2, hr, hstranded, ?_⟩
  rcases (reachable_consts hr).1 "x" hstranded.const with hproperty | hfull
  . rw [hstranded.property] at hproperty
    cases hproperty
  . exact hfull

/-- A declaration that fails does note its constant, which is no property of the global object. -/
theorem failed_declaration_notes_const
    : ∃ s e s', s.consts = []
        ∧ Run.script "const x = 1;" "a.js" none aloneEnv s = .thrown e s' ∧ s'.Reachable
        ∧ "x" ∈ s'.consts ∧ s'.heap.hasProperty s'.global "x" = false := by
  obtain ⟨p, hp, hstranded⟩ := strandedConst_spec
  obtain ⟨hconsts, hthrown, hr⟩ := reachable_of_strandedConst? hp
  exact ⟨p.1, p.2.1, p.2.2, hconsts, hthrown, hr, hstranded.const, hstranded.property⟩

end ScriptHost.Session
