import ScriptHost.Eval.Hoist

/-!
This module contains the statements that occur in a body outside nested functions. The declarations that
take effect before the body are exactly those of these statements.
-/

namespace ScriptHost

namespace Stmt

/-- The lists of statements that stand directly in a statement. -/
def bodies : Stmt → List (List Stmt)
  | .if _ thenBranch elseBranch _ => thenBranch :: elseBranch.toList
  | .while _ body _ | doWhile body _ _ | block body _ => [body]
  | .for init _ _ body _ => [init.toList, body]
  | .try stmts handler finalizer _ => stmts :: ((handler.map Handler.body).toList ++ finalizer.toList)
  | _ => []

/-- A statement occurs in a body at any depth, but not in the functions there. -/
inductive Occurs (body : List Stmt) : Stmt → Prop where
  | direct {st : Stmt} (hst : st ∈ body) : Occurs body st
  | within {st outer : Stmt} {stmts : List Stmt} (houter : Occurs body outer)
      (hstmts : stmts ∈ outer.bodies) (hst : st ∈ stmts)
    : Occurs body st

/-- The names that a statement itself declares for the whole body: those of `var`, or that of a function. -/
def declared : Stmt → List String
  | declare .var declarators _ => declarators.map Declarator.name
  | function f => f.name.toList
  | _ => []

end Stmt

/-- The names that are declared. -/
def Hoisted.names (d : Hoisted) : List String :=
  d.vars.map Prod.fst ++ d.functions.filterMap Function.name

namespace Stmt

variable {name : String}

theorem names_empty : ({} : Hoisted).names = [] :=
  rfl

theorem mem_names_append {a b : Hoisted}
    : name ∈ (a ++ b).names ↔ name ∈ a.names ∨ name ∈ b.names := by
  change name ∈ (a.vars ++ b.vars).map Prod.fst ++ (a.functions ++ b.functions).filterMap Function.name ↔ _
  simp only [Hoisted.names, List.map_append, List.filterMap_append, List.mem_append]
  exact or_or_or_comm

theorem mem_hoistedAll {stmts : List Stmt}
    : name ∈ (hoistedAll stmts).names ↔ ∃ st ∈ stmts, name ∈ st.hoisted.names := by
  induction stmts with
  | nil => simp [hoistedAll, names_empty]
  | cons st stmts ih => simp [hoistedAll, mem_names_append, ih]

theorem mem_hoistedInit {init : Option Stmt}
    : name ∈ (hoistedInit init).names ↔ name ∈ (hoistedAll init.toList).names := by
  cases init <;> simp [hoistedInit, hoistedAll, mem_names_append, names_empty]

/-- What is declared in a statement is declared by itself or in one of the lists in it. -/
theorem mem_hoisted (st : Stmt)
    : name ∈ st.hoisted.names
        ↔ name ∈ st.declared ∨ ∃ stmts ∈ st.bodies, name ∈ (hoistedAll stmts).names := by
  cases st with
  | declare kind declarators loc =>
    cases kind <;> simp [hoisted, Hoisted.names, declared, bodies]
  | function f => cases hname : f.name <;> simp [hoisted, Hoisted.names, declared, bodies, hname]
  | «if» condition thenBranch elseBranch loc =>
    cases elseBranch <;> simp [hoisted, hoistedAll?, mem_names_append, names_empty, declared, bodies]
  | «for» init condition update body loc =>
    simp [hoisted, mem_names_append, mem_hoistedInit, declared, bodies]
  | «try» stmts handler finalizer loc =>
    rcases handler with _ | ⟨param, body⟩ <;> cases finalizer <;>
      simp [hoisted, hoistedHandler, hoistedAll?, mem_names_append, names_empty, declared, bodies, or_assoc]
  | «while» | doWhile | block => simp [hoisted, declared, bodies]
  | _ => simp [hoisted, names_empty, declared, bodies]

/-- What stands in a statement is smaller than it. -/
theorem sizeOf_lt_of_mem_bodies {st outer : Stmt} {stmts : List Stmt} (hst : st ∈ stmts)
    (hstmts : stmts ∈ outer.bodies)
    : sizeOf st < sizeOf outer := by
  have hlt := List.sizeOf_lt_of_mem hst
  cases outer with
  | «if» condition thenBranch elseBranch loc =>
    simp only [bodies, List.mem_cons, Option.mem_toList] at hstmts
    rcases hstmts with rfl | rfl
    . simp
      omega
    . simp
      omega
  | «for» init condition update body loc =>
    simp only [bodies, List.mem_cons, List.not_mem_nil, or_false] at hstmts
    rcases hstmts with rfl | rfl
    . rw [Option.mem_toList] at hst
      subst hst
      simp
      omega
    . simp
      omega
  | «try» stmts handler finalizer loc =>
    simp only [bodies, List.mem_cons, List.mem_append, Option.mem_toList, Option.map_eq_some_iff] at hstmts
    rcases hstmts with rfl | ⟨⟨param, body⟩, rfl, rfl⟩ | rfl
    . simp
      omega
    . have hlt : sizeOf st < sizeOf body := hlt
      simp
      omega
    . simp
      omega
  | «while» | doWhile | block =>
    cases List.mem_singleton.1 hstmts
    simp only [while.sizeOf_spec, doWhile.sizeOf_spec, block.sizeOf_spec]
    omega
  | _ => cases hstmts

theorem exists_of_mem_hoisted {body : List Stmt} (st : Stmt) (hst : Occurs body st)
    (hname : name ∈ st.hoisted.names)
    : ∃ st', Occurs body st' ∧ name ∈ st'.declared := by
  rcases (mem_hoisted st).1 hname with hname | ⟨stmts, hstmts, hname⟩
  . exact ⟨st, hst, hname⟩
  . obtain ⟨st', hst', hname⟩ := mem_hoistedAll.1 hname
    exact exists_of_mem_hoisted st' (.within hst hstmts hst') hname
termination_by sizeOf st
decreasing_by exact sizeOf_lt_of_mem_bodies hst' hstmts

theorem Occurs.mem_hoistedAll {body : List Stmt} {st : Stmt} (hst : Occurs body st)
    (hname : name ∈ st.hoisted.names)
    : name ∈ (hoistedAll body).names := by
  induction hst with
  | direct hst => exact Stmt.mem_hoistedAll.2 ⟨_, hst, hname⟩
  | @within st outer stmts _ hstmts hst ih =>
    exact ih ((mem_hoisted outer).2 (Or.inr ⟨stmts, hstmts, Stmt.mem_hoistedAll.2 ⟨st, hst, hname⟩⟩))

/-- Hoisting visits every statement that is not in a nested function. -/
theorem mem_hoistedAll_iff {body : List Stmt}
    : name ∈ (hoistedAll body).names ↔ ∃ st, Occurs body st ∧ name ∈ st.declared := by
  constructor
  . intro hname
    obtain ⟨st, hst, hname⟩ := mem_hoistedAll.1 hname
    exact exists_of_mem_hoisted st (.direct hst) hname
  . rintro ⟨st, hst, hname⟩
    exact hst.mem_hoistedAll ((mem_hoisted st).2 (Or.inl hname))

end Stmt
end ScriptHost
