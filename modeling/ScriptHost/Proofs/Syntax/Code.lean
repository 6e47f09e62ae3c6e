import Mathlib.Logic.Relation
import ScriptHost.Eval.Hoist
import ScriptHost.Proofs.Syntax.Functions
import ScriptHost.Proofs.Syntax.WellFormed

/-!
This module contains the pieces of code that are run by rules of their own. The rule for a piece runs the
parts of that piece and declares the functions that it contains outside of others.
-/

namespace ScriptHost

/-- A piece of code, or what it asks for that has its code elsewhere. -/
inductive Code where
  | expr (e : Expr)
  /-- A statement that may contain the given jumps. -/
  | stmt (jumps : Jumps) (st : Stmt)
  | body (b : FunctionBody)
  | script (stmts : List Stmt)
  /-- A call of any object. -/
  | call
  /-- A run of a source. -/
  | load (source : String)

/-! The parts of a piece, which its rule may run any number of times. -/

def Expr.parts : Expr → List Code
  | .number .. | .string .. | .bool .. | .null _ | .undefined _ | .name .. | .function _ => []
  | .array elements _ => elements.map .expr
  | .object properties _ => properties.map fun p => .expr p.value
  | .binary _ left right _ => [.expr left, .expr right]
  | .unary _ operand _ => [.expr operand]
  | .assign target value _ | .compound _ target value _ => [.expr target, .expr value]
  | .conditional condition whenTrue whenFalse _ => [.expr condition, .expr whenTrue, .expr whenFalse]
  | .call callee args _ => .call :: .expr callee :: args.map .expr
  | .member base _ _ => [.expr base]
  | .index base key _ => [.expr base, .expr key]

def Stmt.parts (jumps : Jumps) : Stmt → List Code
  | .declare _ declarators _ => (declarators.filterMap Declarator.init).map .expr
  | .function _ | .break _ | .continue _ | .empty _ => []
  | .return value _ => value.toList.map .expr
  | .if condition thenBranch elseBranch _ =>
    .expr condition :: (thenBranch ++ elseBranch.getD []).map (.stmt jumps)
  | .while condition body _ | .doWhile body condition _ =>
    .expr condition :: body.map (.stmt { jumps with inLoop := true })
  | .for init condition update body _ =>
    init.toList.map (.stmt jumps) ++ condition.toList.map .expr ++ update.toList.map .expr
      ++ body.map (.stmt { jumps with inLoop := true })
  | .throw value _ | .expr value _ => [.expr value]
  | .try stmts handler finalizer _ =>
    (stmts ++ (handler.map Handler.body).getD [] ++ finalizer.getD []).map (.stmt jumps)
  | .block stmts _ => stmts.map (.stmt jumps)

def Stmt.isLoop : Stmt → Bool
  | .while .. | .doWhile .. | .for .. => true
  | _ => false

def FunctionBody.parts : FunctionBody → List Code
  | .block stmts => stmts.map (.stmt { inFunction := true })
  | .expr value => [.expr value]

/-! What is well-formed has well-formed parts. -/

theorem Expr.wellFormedAll_iff {es : List Expr} : Expr.WellFormedAll es ↔ ∀ e ∈ es, e.WellFormed := by
  refine ⟨fun h => ?_, Expr.wellFormedAll_of_forall⟩
  induction es with
  | nil => exact fun _ he => absurd he List.not_mem_nil
  | cons e es ih => exact List.forall_mem_cons.2 ⟨h.1, ih h.2⟩

theorem Property.wellFormedAll_iff {ps : List Property}
    : Property.WellFormedAll ps ↔ ∀ p ∈ ps, p.value.WellFormed := by
  refine ⟨fun h => ?_, Property.wellFormedAll_of_forall⟩
  induction ps with
  | nil => exact fun _ hp => absurd hp List.not_mem_nil
  | cons p ps ih =>
    cases p
    exact List.forall_mem_cons.2 ⟨h.1, ih h.2⟩

theorem Stmt.wellFormedAll_iff {jumps : Jumps} {stmts : List Stmt}
    : Stmt.WellFormedAll jumps stmts ↔ ∀ st ∈ stmts, st.WellFormed jumps := by
  refine ⟨fun h => ?_, Stmt.wellFormedAll_of_forall⟩
  induction stmts with
  | nil => exact fun _ hst => absurd hst List.not_mem_nil
  | cons st stmts ih => exact List.forall_mem_cons.2 ⟨h.1, ih h.2⟩

theorem Declarator.wellFormedAll_iff {ds : List Declarator}
    : Declarator.WellFormedAll ds ↔ ∀ d ∈ ds, Expr.WellFormed? d.init := by
  refine ⟨fun h => ?_, Declarator.wellFormedAll_of_forall⟩
  induction ds with
  | nil => exact fun _ hd => absurd hd List.not_mem_nil
  | cons d ds ih =>
    cases d
    exact List.forall_mem_cons.2 ⟨h.1, ih h.2⟩

theorem Function.WellFormed.body {f : Function} (hf : f.WellFormed) : f.body.WellFormed := by
  cases f
  exact hf.2.2

namespace Code

def parts : Code → List Code
  | expr e => e.parts
  | stmt jumps st => st.parts jumps
  | body b => b.parts
  | script stmts => stmts.map (.stmt {})
  | call | load _ => []

def WellFormed : Code → Prop
  | expr e => e.WellFormed
  | stmt jumps st => st.WellFormed jumps
  | body b => b.WellFormed
  | script stmts => Stmt.WellFormedAll {} stmts
  | call | load _ => True

variable {c p : Code}

theorem wellFormed_expr_part {e : Expr} (he : e.WellFormed) (hp : p ∈ e.parts) : p.WellFormed := by
  cases e with
  | number | string | bool | null | undefined | name | function => cases hp
  | array elements _ =>
    obtain ⟨e, he', rfl⟩ := List.mem_map.1 hp
    exact Expr.wellFormedAll_iff.1 he e he'
  | object properties _ =>
    obtain ⟨p, hp', rfl⟩ := List.mem_map.1 hp
    exact Property.wellFormedAll_iff.1 he p hp'
  | binary | index =>
    simp only [Expr.parts, List.mem_cons, List.not_mem_nil, or_false] at hp
    rcases hp with rfl | rfl
    . exact he.1
    . exact he.2
  | unary =>
    cases List.mem_singleton.1 hp
    exact he.2
  | member =>
    cases List.mem_singleton.1 hp
    exact he
  | assign =>
    simp only [Expr.parts, List.mem_cons, List.not_mem_nil, or_false] at hp
    rcases hp with rfl | rfl
    . exact he.2.1
    . exact he.2.2
  | compound =>
    simp only [Expr.parts, List.mem_cons, List.not_mem_nil, or_false] at hp
    rcases hp with rfl | rfl
    . exact he.2.2.1
    . exact he.2.2.2
  | conditional =>
    simp only [Expr.parts, List.mem_cons, List.not_mem_nil, or_false] at hp
    rcases hp with rfl | rfl | rfl
    . exact he.1
    . exact he.2.1
    . exact he.2.2
  | call callee args _ =>
    simp only [Expr.parts, List.mem_cons, List.mem_map] at hp
    rcases hp with rfl | rfl | ⟨e, he', rfl⟩
    . trivial
    . exact he.1
    . exact Expr.wellFormedAll_iff.1 he.2 e he'

theorem wellFormed_stmts {jumps : Jumps} {stmts : List Stmt} (h : Stmt.WellFormedAll jumps stmts)
    (hp : p ∈ stmts.map (.stmt jumps))
    : p.WellFormed := by
  obtain ⟨st, hst, rfl⟩ := List.mem_map.1 hp
  exact Stmt.wellFormedAll_iff.1 h st hst

theorem wellFormed_expr? {e : Option Expr} (h : Expr.WellFormed? e) (hp : p ∈ e.toList.map .expr)
    : p.WellFormed := by
  cases e with
  | none => cases hp
  | some e =>
    cases List.mem_singleton.1 hp
    exact h

theorem wellFormed_stmts? {jumps : Jumps} {stmts : Option (List Stmt)}
    (h : Stmt.WellFormedAll? jumps stmts) (hp : p ∈ (stmts.getD []).map (.stmt jumps))
    : p.WellFormed := by
  cases stmts with
  | none => cases hp
  | some stmts => exact wellFormed_stmts h hp

theorem wellFormed_handler {jumps : Jumps} {handler : Option Handler}
    (h : Handler.WellFormed? jumps handler)
    (hp : p ∈ ((handler.map Handler.body).getD []).map (.stmt jumps))
    : p.WellFormed := by
  cases handler with
  | none => cases hp
  | some handler =>
    cases handler
    exact wellFormed_stmts h hp

theorem wellFormed_stmt_part {jumps : Jumps} {st : Stmt} (hst : st.WellFormed jumps)
    (hp : p ∈ st.parts jumps)
    : p.WellFormed := by
  cases st with
  | function | «break» | «continue» | empty => cases hp
  | declare kind ds _ =>
    simp only [Stmt.parts, List.mem_map, List.mem_filterMap] at hp
    obtain ⟨e, ⟨d, hd, hinit⟩, rfl⟩ := hp
    have he := Declarator.wellFormedAll_iff.1 hst.2.2 d hd
    rw [hinit] at he
    exact he
  | «return» => exact wellFormed_expr? hst.2 hp
  | «if» =>
    simp only [Stmt.parts, List.mem_cons, List.map_append, List.mem_append] at hp
    rcases hp with rfl | hp | hp
    . exact hst.1
    . exact wellFormed_stmts hst.2.1 hp
    . exact wellFormed_stmts? hst.2.2 hp
  | «while» =>
    simp only [Stmt.parts, List.mem_cons] at hp
    rcases hp with rfl | hp
    . exact hst.1
    . exact wellFormed_stmts hst.2 hp
  | doWhile =>
    simp only [Stmt.parts, List.mem_cons] at hp
    rcases hp with rfl | hp
    . exact hst.2
    . exact wellFormed_stmts hst.1 hp
  | «for» init condition update body _ =>
    simp only [Stmt.parts, List.mem_append] at hp
    obtain ⟨-, hinit, hcondition, hupdate, hbody⟩ := hst
    rcases hp with ((hp | hp) | hp) | hp
    . cases init with
      | none => cases hp
      | some init =>
        cases List.mem_singleton.1 hp
        exact hinit
    . exact wellFormed_expr? hcondition hp
    . exact wellFormed_expr? hupdate hp
    . exact wellFormed_stmts hbody hp
  | throw | expr =>
    cases List.mem_singleton.1 hp
    exact hst
  | «try» =>
    simp only [Stmt.parts, List.map_append, List.mem_append] at hp
    obtain ⟨-, hblock, hhandler, hfinalizer⟩ := hst
    rcases hp with (hp | hp) | hp
    . exact wellFormed_stmts hblock hp
    . exact wellFormed_handler hhandler hp
    . exact wellFormed_stmts? hfinalizer hp
  | block => exact wellFormed_stmts hst hp

theorem WellFormed.part (hc : c.WellFormed) (hp : p ∈ c.parts) : p.WellFormed := by
  cases c with
  | expr e => exact wellFormed_expr_part hc hp
  | stmt jumps st => exact wellFormed_stmt_part hc hp
  | body b =>
    cases b with
    | block stmts => exact wellFormed_stmts hc hp
    | expr value =>
      cases List.mem_singleton.1 hp
      exact hc
  | script stmts => exact wellFormed_stmts hc hp
  | call | load => cases hp

/-- The parts of a piece, their parts, and so on. -/
abbrev Contains : Code → Code → Prop :=
  Relation.ReflTransGen fun c p => p ∈ c.parts

theorem contains_of_mem_map {jumps : Jumps} {stmts : List Stmt} {st : Stmt}
    (hparts : ∀ p ∈ stmts.map (.stmt jumps), p ∈ c.parts) (hst : st ∈ stmts)
    (h : (stmt jumps st).Contains p)
    : c.Contains p :=
  .head (hparts _ (List.mem_map_of_mem hst)) h

end Code

/-! A declared function stands in the piece that declares it, but not in another function of it. -/

mutual

theorem Stmt.contains_of_mem_hoisted (jumps : Jumps)
    : (st : Stmt) → ∀ f ∈ st.hoisted.functions,
        ∃ jumps', (Code.stmt jumps st).Contains (.stmt jumps' (.function f))
  | .function f => fun g hg => by
    cases List.mem_singleton.1 hg
    exact ⟨jumps, .refl⟩
  | .if condition thenBranch elseBranch loc => fun f hf => by
    rcases List.mem_append.1 hf with hf | hf
    . obtain ⟨st, hst, jumps', h⟩ := Stmt.contains_of_mem_hoistedAll jumps thenBranch f hf
      refine ⟨jumps', Code.contains_of_mem_map (fun p hp => ?_) hst h⟩
      simp only [Code.parts, Stmt.parts, List.map_append]
      exact List.mem_cons_of_mem _ (List.mem_append_left _ hp)
    . obtain ⟨st, hst, jumps', h⟩ := Stmt.contains_of_mem_hoistedAll? jumps elseBranch f hf
      refine ⟨jumps', Code.contains_of_mem_map (fun p hp => ?_) hst h⟩
      simp only [Code.parts, Stmt.parts, List.map_append]
      exact List.mem_cons_of_mem _ (List.mem_append_right _ hp)
  | .while condition body loc | .doWhile body condition loc => fun f hf => by
    obtain ⟨st, hst, jumps', h⟩ :=
      Stmt.contains_of_mem_hoistedAll { jumps with inLoop := true } body f hf
    exact ⟨jumps', Code.contains_of_mem_map (fun p hp => List.mem_cons_of_mem _ hp) hst h⟩
  | .for init condition update body loc => fun f hf => by
    rcases List.mem_append.1 hf with hf | hf
    . obtain ⟨st, hst, jumps', h⟩ := Stmt.contains_of_mem_hoistedInit jumps init f hf
      have hparts : ∀ p ∈ init.toList.map (Code.stmt jumps),
          p ∈ (Code.stmt jumps (.for init condition update body loc)).parts := fun p hp =>
        List.mem_append_left _ (List.mem_append_left _ (List.mem_append_left _ hp))
      exact ⟨jumps', Code.contains_of_mem_map hparts hst h⟩
    . obtain ⟨st, hst, jumps', h⟩ :=
        Stmt.contains_of_mem_hoistedAll { jumps with inLoop := true } body f hf
      exact ⟨jumps', Code.contains_of_mem_map (fun p hp => List.mem_append_right _ hp) hst h⟩
  | .try stmts handler finalizer loc => fun f hf => by
    rcases List.mem_append.1 hf with hf | hf
    . rcases List.mem_append.1 hf with hf | hf
      . obtain ⟨st, hst, jumps', h⟩ := Stmt.contains_of_mem_hoistedAll jumps stmts f hf
        refine ⟨jumps', Code.contains_of_mem_map (fun p hp => ?_) hst h⟩
        simp only [Code.parts, Stmt.parts, List.map_append]
        exact List.mem_append_left _ (List.mem_append_left _ hp)
      . obtain ⟨st, hst, jumps', h⟩ := Stmt.contains_of_mem_hoistedHandler jumps handler f hf
        refine ⟨jumps', Code.contains_of_mem_map (fun p hp => ?_) hst h⟩
        simp only [Code.parts, Stmt.parts, List.map_append]
        exact List.mem_append_left _ (List.mem_append_right _ hp)
    . obtain ⟨st, hst, jumps', h⟩ := Stmt.contains_of_mem_hoistedAll? jumps finalizer f hf
      refine ⟨jumps', Code.contains_of_mem_map (fun p hp => ?_) hst h⟩
      simp only [Code.parts, Stmt.parts, List.map_append]
      exact List.mem_append_right _ hp
  | .block stmts loc => fun f hf => by
    obtain ⟨st, hst, jumps', h⟩ := Stmt.contains_of_mem_hoistedAll jumps stmts f hf
    exact ⟨jumps', Code.contains_of_mem_map (fun _ hp => hp) hst h⟩
  | .declare .var _ _ | .declare .let _ _ | .declare .const _ _ | .return .. | .break _ | .continue _
  | .throw .. | .empty _ | .expr .. => fun _ hf => absurd hf List.not_mem_nil

theorem Stmt.contains_of_mem_hoistedInit (jumps : Jumps)
    : (init : Option Stmt) → ∀ f ∈ (hoistedInit init).functions,
        ∃ st ∈ init.toList, ∃ jumps', (Code.stmt jumps st).Contains (.stmt jumps' (.function f))
  | some st => fun f hf => ⟨st, List.mem_singleton_self st, Stmt.contains_of_mem_hoisted jumps st f hf⟩
  | none => fun _ hf => absurd hf List.not_mem_nil

theorem Stmt.contains_of_mem_hoistedHandler (jumps : Jumps)
    : (handler : Option Handler) → ∀ f ∈ (hoistedHandler handler).functions,
        ∃ st ∈ (handler.map Handler.body).getD [],
          ∃ jumps', (Code.stmt jumps st).Contains (.stmt jumps' (.function f))
  | some ⟨_, body⟩ => Stmt.contains_of_mem_hoistedAll jumps body
  | none => fun _ hf => absurd hf List.not_mem_nil

theorem Stmt.contains_of_mem_hoistedAll? (jumps : Jumps)
    : (body : Option (List Stmt)) → ∀ f ∈ (hoistedAll? body).functions,
        ∃ st ∈ body.getD [], ∃ jumps', (Code.stmt jumps st).Contains (.stmt jumps' (.function f))
  | some body => Stmt.contains_of_mem_hoistedAll jumps body
  | none => fun _ hf => absurd hf List.not_mem_nil

theorem Stmt.contains_of_mem_hoistedAll (jumps : Jumps)
    : (stmts : List Stmt) → ∀ f ∈ (hoistedAll stmts).functions,
        ∃ st ∈ stmts, ∃ jumps', (Code.stmt jumps st).Contains (.stmt jumps' (.function f))
  | [] => fun _ hf => absurd hf List.not_mem_nil
  | st :: stmts => fun f hf => by
    rcases List.mem_append.1 hf with hf | hf
    . exact ⟨st, List.mem_cons_self, Stmt.contains_of_mem_hoisted jumps st f hf⟩
    . obtain ⟨st', hst', h⟩ := Stmt.contains_of_mem_hoistedAll jumps stmts f hf
      exact ⟨st', List.mem_cons_of_mem _ hst', h⟩

end

theorem Code.contains_of_mem_hoistedAll {c : Code} {jumps : Jumps} {stmts : List Stmt} {f : Function}
    (hparts : c.parts = stmts.map (.stmt jumps)) (hf : f ∈ (Stmt.hoistedAll stmts).functions)
    : ∃ jumps', c.Contains (.stmt jumps' (.function f)) := by
  obtain ⟨st, hst, jumps', h⟩ := Stmt.contains_of_mem_hoistedAll jumps stmts f hf
  exact ⟨jumps', contains_of_mem_map (fun _ hp => hparts ▸ hp) hst h⟩

/-! The functions in a piece of code, of which its parts have no others. -/

theorem Expr.mem_functionsAll {es : List Expr} {f : Function}
    : f ∈ Expr.functionsAll es ↔ ∃ e ∈ es, f ∈ e.functions := by
  induction es with
  | nil => simp [Expr.functionsAll]
  | cons e es ih => simp [Expr.functionsAll, ih]

theorem Property.mem_functionsAll {ps : List Property} {f : Function}
    : f ∈ Property.functionsAll ps ↔ ∃ p ∈ ps, f ∈ p.value.functions := by
  induction ps with
  | nil => simp [Property.functionsAll]
  | cons p ps ih =>
    cases p
    simp [Property.functionsAll, ih]

theorem Stmt.mem_functionsAll {stmts : List Stmt} {f : Function}
    : f ∈ Stmt.functionsAll stmts ↔ ∃ st ∈ stmts, f ∈ st.functions := by
  induction stmts with
  | nil => simp [Stmt.functionsAll]
  | cons st stmts ih => simp [Stmt.functionsAll, ih]

theorem Declarator.mem_functionsAll {ds : List Declarator} {f : Function}
    : f ∈ Declarator.functionsAll ds ↔ ∃ d ∈ ds, f ∈ Expr.functions? d.init := by
  induction ds with
  | nil => simp [Declarator.functionsAll]
  | cons d ds ih =>
    cases d
    simp [Declarator.functionsAll, ih]

namespace Code

def functions : Code → List Function
  | expr e => e.functions
  | stmt _ st => st.functions
  | body b => b.functions
  | script stmts => Stmt.functionsAll stmts
  | call | load _ => []

variable {c p : Code}

theorem functions_part_expr {e : Expr} (hp : p ∈ e.parts) : p.functions ⊆ e.functions := by
  cases e with
  | number | string | bool | null | undefined | name | function => cases hp
  | array elements =>
    obtain ⟨e, he, rfl⟩ := List.mem_map.1 hp
    exact fun f hf => Expr.mem_functionsAll.2 ⟨e, he, hf⟩
  | object properties =>
    obtain ⟨q, hq, rfl⟩ := List.mem_map.1 hp
    exact fun f hf => Property.mem_functionsAll.2 ⟨q, hq, hf⟩
  | unary | member =>
    cases List.mem_singleton.1 hp
    exact List.Subset.refl _
  | binary | assign | compound | index =>
    simp only [Expr.parts, List.mem_cons, List.not_mem_nil, or_false] at hp
    rcases hp with rfl | rfl
    . exact List.subset_append_left _ _
    . exact List.subset_append_right _ _
  | conditional =>
    simp only [Expr.parts, List.mem_cons, List.not_mem_nil, or_false] at hp
    rcases hp with rfl | rfl | rfl
    . exact fun f hf => List.mem_append_left _ (List.mem_append_left _ hf)
    . exact fun f hf => List.mem_append_left _ (List.mem_append_right _ hf)
    . exact List.subset_append_right _ _
  | call callee args =>
    simp only [Expr.parts, List.mem_cons, List.mem_map] at hp
    rcases hp with rfl | rfl | ⟨e, he, rfl⟩
    . exact List.nil_subset _
    . exact List.subset_append_left _ _
    . exact fun f hf => List.mem_append_right _ (Expr.mem_functionsAll.2 ⟨e, he, hf⟩)

theorem functions_part_stmts {jumps : Jumps} {stmts : List Stmt} (hp : p ∈ stmts.map (.stmt jumps))
    : p.functions ⊆ Stmt.functionsAll stmts := by
  obtain ⟨st, hst, rfl⟩ := List.mem_map.1 hp
  exact fun f hf => Stmt.mem_functionsAll.2 ⟨st, hst, hf⟩

theorem functions_part_expr? {e : Option Expr} (hp : p ∈ e.toList.map .expr)
    : p.functions ⊆ Expr.functions? e := by
  cases e with
  | none => cases hp
  | some e =>
    cases List.mem_singleton.1 hp
    exact List.Subset.refl _

theorem functions_part_stmts? {jumps : Jumps} {stmts : Option (List Stmt)}
    (hp : p ∈ (stmts.getD []).map (.stmt jumps))
    : p.functions ⊆ Stmt.functionsAll? stmts := by
  cases stmts with
  | none => cases hp
  | some stmts => exact functions_part_stmts hp

theorem functions_part_stmt {jumps : Jumps} {st : Stmt} (hp : p ∈ st.parts jumps)
    : p.functions ⊆ st.functions := by
  cases st with
  | function | «break» | «continue» | empty => cases hp
  | declare kind ds =>
    simp only [Stmt.parts, List.mem_map, List.mem_filterMap] at hp
    obtain ⟨e, ⟨d, hd, hinit⟩, rfl⟩ := hp
    intro f hf
    refine Declarator.mem_functionsAll.2 ⟨d, hd, ?_⟩
    rw [hinit]
    exact hf
  | «return» => exact functions_part_expr? hp
  | «if» =>
    simp only [Stmt.parts, List.mem_cons, List.map_append, List.mem_append] at hp
    rcases hp with rfl | hp | hp
    . exact fun f hf => List.mem_append_left _ (List.mem_append_left _ hf)
    . exact fun f hf => List.mem_append_left _ (List.mem_append_right _ (functions_part_stmts hp hf))
    . exact fun f hf => List.mem_append_right _ (functions_part_stmts? hp hf)
  | «while» =>
    rcases List.mem_cons.1 hp with rfl | hp
    . exact List.subset_append_left _ _
    . exact fun f hf => List.mem_append_right _ (functions_part_stmts hp hf)
  | doWhile =>
    rcases List.mem_cons.1 hp with rfl | hp
    . exact List.subset_append_right _ _
    . exact fun f hf => List.mem_append_left _ (functions_part_stmts hp hf)
  | «for» init =>
    simp only [Stmt.parts, List.mem_append] at hp
    simp only [Stmt.functions]
    intro f hf
    rcases hp with ((hp | hp) | hp) | hp
    . cases init with
      | none => cases hp
      | some init =>
        cases List.mem_singleton.1 hp
        exact List.mem_append_left _ (List.mem_append_left _ (List.mem_append_left _ hf))
    . have hf' := functions_part_expr? hp hf
      exact List.mem_append_left _ (List.mem_append_left _ (List.mem_append_right _ hf'))
    . exact List.mem_append_left _ (List.mem_append_right _ (functions_part_expr? hp hf))
    . exact List.mem_append_right _ (functions_part_stmts hp hf)
  | throw | expr =>
    cases List.mem_singleton.1 hp
    exact List.Subset.refl _
  | «try» stmts handler =>
    simp only [Stmt.parts, List.map_append, List.mem_append] at hp
    intro f hf
    rcases hp with (hp | hp) | hp
    . exact List.mem_append_left _ (List.mem_append_left _ (functions_part_stmts hp hf))
    . cases handler with
      | none => cases hp
      | some handler =>
        cases handler
        exact List.mem_append_left _ (List.mem_append_right _ (functions_part_stmts hp hf))
    . exact List.mem_append_right _ (functions_part_stmts? hp hf)
  | block => exact functions_part_stmts hp

theorem functions_part (hp : p ∈ c.parts) : p.functions ⊆ c.functions := by
  cases c with
  | expr e => exact functions_part_expr hp
  | stmt jumps st => exact functions_part_stmt hp
  | body b =>
    cases b with
    | block stmts => exact functions_part_stmts hp
    | expr value =>
      cases List.mem_singleton.1 hp
      exact List.Subset.refl _
  | script stmts => exact functions_part_stmts hp
  | call | load => cases hp

end Code
end ScriptHost
