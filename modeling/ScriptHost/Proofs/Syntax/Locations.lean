import ScriptHost.Eval.Hoist
import ScriptHost.Script
import ScriptHost.Syntax.Script

/-!
This module contains the locations that occur in a script: those of all nodes and declarators of its
syntax tree, or that of the error if it has none.
-/

namespace ScriptHost

mutual

def Expr.locations : Expr → List Location
  | .number _ loc | .string _ loc | .bool _ loc | .null loc | .undefined loc | .name _ loc => [loc]
  | .array elements loc => loc :: Expr.locationsAll elements
  | .object properties loc => loc :: Property.locationsAll properties
  | .function f => f.locations
  | .binary _ left right loc => loc :: (left.locations ++ right.locations)
  | .unary _ operand loc => loc :: operand.locations
  | .assign target value loc => loc :: (target.locations ++ value.locations)
  | .compound _ target value loc => loc :: (target.locations ++ value.locations)
  | .conditional condition whenTrue whenFalse loc =>
    loc :: (condition.locations ++ whenTrue.locations ++ whenFalse.locations)
  | .call callee args loc => loc :: (callee.locations ++ Expr.locationsAll args)
  | .member object _ loc => loc :: object.locations
  | .index object key loc => loc :: (object.locations ++ key.locations)

def Expr.locationsAll : List Expr → List Location
  | [] => []
  | e :: es => e.locations ++ Expr.locationsAll es

def Expr.locations? : Option Expr → List Location
  | some e => e.locations
  | none => []

def Property.locationsAll : List Property → List Location
  | [] => []
  | ⟨_, value⟩ :: ps => value.locations ++ Property.locationsAll ps

def Function.locations : Function → List Location
  | ⟨_, _, body, loc⟩ => loc :: body.locations

def FunctionBody.locations : FunctionBody → List Location
  | .block stmts => Stmt.locationsAll stmts
  | .expr value => value.locations

def Stmt.locations : Stmt → List Location
  | .declare _ declarators loc => loc :: Declarator.locationsAll declarators
  | .function f => f.locations
  | .return value loc => loc :: Expr.locations? value
  | .if condition thenBranch elseBranch loc =>
    loc :: (condition.locations ++ Stmt.locationsAll thenBranch ++ Stmt.locationsAll? elseBranch)
  | .while condition body loc => loc :: (condition.locations ++ Stmt.locationsAll body)
  | .doWhile body condition loc => loc :: (Stmt.locationsAll body ++ condition.locations)
  | .for init condition update body loc =>
    loc :: (Stmt.locations? init ++ Expr.locations? condition ++ Expr.locations? update
      ++ Stmt.locationsAll body)
  | .break loc | .continue loc | .empty loc => [loc]
  | .throw value loc => loc :: value.locations
  | .try stmts handler finalizer loc =>
    loc :: (Stmt.locationsAll stmts ++ Handler.locations? handler ++ Stmt.locationsAll? finalizer)
  | .block stmts loc => loc :: Stmt.locationsAll stmts
  | .expr value loc => loc :: value.locations

def Stmt.locations? : Option Stmt → List Location
  | some st => st.locations
  | none => []

def Stmt.locationsAll : List Stmt → List Location
  | [] => []
  | st :: stmts => st.locations ++ Stmt.locationsAll stmts

def Stmt.locationsAll? : Option (List Stmt) → List Location
  | some stmts => Stmt.locationsAll stmts
  | none => []

def Declarator.locationsAll : List Declarator → List Location
  | [] => []
  | ⟨_, init, loc⟩ :: ds => loc :: (Expr.locations? init ++ Declarator.locationsAll ds)

def Handler.locations? : Option Handler → List Location
  | some ⟨_, body⟩ => Stmt.locationsAll body
  | none => []

end

/-- The locations that occur in the parse of a script. -/
def Script.locations (s : Script) : List Location :=
  match parse s.source with
  | .ok stmts => Stmt.locationsAll stmts
  | .error e => [e.loc]

theorem Expr.loc_mem_locations (e : Expr) : e.loc ∈ e.locations := by
  cases e with
  | function f =>
    cases f
    exact List.mem_cons_self
  | _ => exact List.mem_cons_self

theorem Function.loc_mem_locations (f : Function) : f.loc ∈ f.locations := by
  cases f
  exact List.mem_cons_self

theorem Function.body_locations_subset (f : Function) : f.body.locations ⊆ f.locations := by
  cases f
  exact List.subset_cons_self _ _

theorem Handler.locations?_some (handler : Handler)
    : Handler.locations? (some handler) = Stmt.locationsAll handler.body := by
  cases handler
  rfl

theorem subset_of_mem {α : Type} {one : α → List Location} {all : List α → List Location}
    (hcons : ∀ a as, all (a :: as) = one a ++ all as) {a : α} {as : List α} (ha : a ∈ as)
    : one a ⊆ all as := by
  induction as with
  | nil => cases ha
  | cons a' as ih =>
    rw [hcons]
    rcases List.mem_cons.1 ha with rfl | ha
    . exact List.subset_append_left _ _
    . exact List.Subset.trans (ih ha) (List.subset_append_right _ _)

theorem Expr.locations_subset_all {e : Expr} {es : List Expr} (he : e ∈ es)
    : e.locations ⊆ Expr.locationsAll es := by
  apply subset_of_mem _ he
  intro e es
  rw [Expr.locationsAll]

theorem Property.locations_subset_all {p : Property} {ps : List Property} (hp : p ∈ ps)
    : p.value.locations ⊆ Property.locationsAll ps := by
  apply subset_of_mem (fun p ps => _) hp
  rintro ⟨key, value⟩ ps
  rw [Property.locationsAll]

theorem Stmt.locations_subset_all {st : Stmt} {stmts : List Stmt} (hst : st ∈ stmts)
    : st.locations ⊆ Stmt.locationsAll stmts := by
  apply subset_of_mem _ hst
  intro st stmts
  rw [Stmt.locationsAll]

theorem Declarator.locations_subset_all {d : Declarator} {ds : List Declarator} (hd : d ∈ ds)
    : d.loc :: Expr.locations? d.init ⊆ Declarator.locationsAll ds := by
  apply subset_of_mem (fun d ds => _) hd
  rintro ⟨name, init, loc⟩ ds
  rw [Declarator.locationsAll]
  rfl

/-- Declarations take effect with locations of the code that they stand in. -/
structure Hoisted.Within (d : Hoisted) (ls : List Location) : Prop where
  vars : ∀ v ∈ d.vars, v.2 ∈ ls
  functions : ∀ f ∈ d.functions, f.locations ⊆ ls

namespace Hoisted.Within

theorem empty (ls : List Location) : Hoisted.Within {} ls where
  vars := by simp
  functions := by simp

theorem mono {d : Hoisted} {ls ls' : List Location} (hd : d.Within ls) (hls : ls ⊆ ls')
    : d.Within ls' where
  vars := fun v hv => hls (hd.vars v hv)
  functions := fun f hf => List.Subset.trans (hd.functions f hf) hls

theorem append {d d' : Hoisted} {ls : List Location} (hd : d.Within ls) (hd' : d'.Within ls)
    : (d ++ d').Within ls where
  vars := by
    intro v hv
    rcases List.mem_append.1 hv with hv | hv
    . exact hd.vars v hv
    . exact hd'.vars v hv
  functions := by
    intro f hf
    rcases List.mem_append.1 hf with hf | hf
    . exact hd.functions f hf
    . exact hd'.functions f hf

end Hoisted.Within

mutual

theorem Stmt.hoisted_within : (st : Stmt) → st.hoisted.Within st.locations
  | .declare kind declarators loc => by
    cases kind with
    | var =>
      refine ⟨?_, by simp [Stmt.hoisted]⟩
      intro v hv
      obtain ⟨d, hd, rfl⟩ := List.mem_map.1 hv
      exact List.mem_cons_of_mem _ (Declarator.locations_subset_all hd List.mem_cons_self)
    | «let» | const => exact .empty _
  | .function f => ⟨by simp [Stmt.hoisted], by simp [Stmt.hoisted, Stmt.locations]⟩
  | .if condition thenBranch elseBranch loc => by
    unfold Stmt.hoisted Stmt.locations
    apply Hoisted.Within.append
    . exact (Stmt.hoistedAll_within thenBranch).mono (fun _ hl => by simp [hl])
    . exact (Stmt.hoistedAll?_within elseBranch).mono (fun _ hl => by simp [hl])
  | .while condition body loc => by
    unfold Stmt.hoisted Stmt.locations
    exact (Stmt.hoistedAll_within body).mono (fun _ hl => by simp [hl])
  | .doWhile body condition loc => by
    unfold Stmt.hoisted Stmt.locations
    exact (Stmt.hoistedAll_within body).mono (fun _ hl => by simp [hl])
  | .for init condition update body loc => by
    unfold Stmt.hoisted Stmt.locations
    apply Hoisted.Within.append
    . exact (Stmt.hoistedInit_within init).mono (fun _ hl => by simp [hl])
    . exact (Stmt.hoistedAll_within body).mono (fun _ hl => by simp [hl])
  | .try stmts handler finalizer loc => by
    unfold Stmt.hoisted Stmt.locations
    apply Hoisted.Within.append
    . apply Hoisted.Within.append
      . exact (Stmt.hoistedAll_within stmts).mono (fun _ hl => by simp [hl])
      . exact (Stmt.hoistedHandler_within handler).mono (fun _ hl => by simp [hl])
    . exact (Stmt.hoistedAll?_within finalizer).mono (fun _ hl => by simp [hl])
  | .block stmts loc => by
    unfold Stmt.hoisted Stmt.locations
    exact (Stmt.hoistedAll_within stmts).mono (fun _ hl => by simp [hl])
  | .return _ _ | .break _ | .continue _ | .throw _ _ | .empty _ | .expr _ _ => .empty _

theorem Stmt.hoistedInit_within : (init : Option Stmt) → (hoistedInit init).Within (locations? init)
  | some st => Stmt.hoisted_within st
  | none => .empty _

theorem Stmt.hoistedHandler_within : (handler : Option Handler) →
    (hoistedHandler handler).Within (Handler.locations? handler)
  | some ⟨_, body⟩ => Stmt.hoistedAll_within body
  | none => .empty _

theorem Stmt.hoistedAll?_within : (body : Option (List Stmt)) →
    (hoistedAll? body).Within (locationsAll? body)
  | some body => Stmt.hoistedAll_within body
  | none => .empty _

theorem Stmt.hoistedAll_within : (stmts : List Stmt) → (hoistedAll stmts).Within (locationsAll stmts)
  | [] => .empty _
  | st :: stmts => by
    unfold Stmt.hoistedAll Stmt.locationsAll
    apply Hoisted.Within.append
    . exact (Stmt.hoisted_within st).mono (List.subset_append_left _ _)
    . exact (Stmt.hoistedAll_within stmts).mono (List.subset_append_right _ _)

end

end ScriptHost
