import ScriptHost.Proofs.Syntax.Code
import ScriptHost.Proofs.Syntax.Height

/-!
This module contains the code in which there is no loop, and the heights of the parts of code. What a script
consists of is no higher than the nesting limit of the grammar allows.
-/

namespace ScriptHost

theorem Expr.height_pos (e : Expr) : 0 < e.height := by
  cases e <;> exact Nat.succ_pos _

section

variable {b : Nat}

theorem Expr.heightAll_le_iff {es : List Expr} : Expr.heightAll es ≤ b ↔ ∀ e ∈ es, e.height ≤ b := by
  refine ⟨fun h => ?_, Expr.heightAll_le⟩
  induction es with
  | nil => exact fun _ he => absurd he List.not_mem_nil
  | cons e es ih =>
    obtain ⟨he, hes⟩ := Nat.max_le.1 h
    exact List.forall_mem_cons.2 ⟨he, ih hes⟩

theorem Property.heightAll_le_iff {ps : List Property}
    : Property.heightAll ps ≤ b ↔ ∀ p ∈ ps, p.value.height ≤ b := by
  refine ⟨fun h => ?_, Property.heightAll_le⟩
  induction ps with
  | nil => exact fun _ hp => absurd hp List.not_mem_nil
  | cons p ps ih =>
    cases p
    obtain ⟨hp, hps⟩ := Nat.max_le.1 h
    exact List.forall_mem_cons.2 ⟨hp, ih hps⟩

theorem Stmt.heightAll_le_iff {stmts : List Stmt}
    : Stmt.heightAll stmts ≤ b ↔ ∀ st ∈ stmts, st.height ≤ b := by
  refine ⟨fun h => ?_, Stmt.heightAll_le⟩
  induction stmts with
  | nil => exact fun _ hst => absurd hst List.not_mem_nil
  | cons st stmts ih =>
    obtain ⟨hst, hstmts⟩ := Nat.max_le.1 h
    exact List.forall_mem_cons.2 ⟨hst, ih hstmts⟩

theorem Declarator.heightAll_le_iff {ds : List Declarator}
    : Declarator.heightAll ds ≤ b ↔ ∀ d ∈ ds, Expr.height? d.init ≤ b := by
  refine ⟨fun h => ?_, Declarator.heightAll_le⟩
  induction ds with
  | nil => exact fun _ hd => absurd hd List.not_mem_nil
  | cons d ds ih =>
    cases d
    obtain ⟨hd, hds⟩ := Nat.max_le.1 h
    exact List.forall_mem_cons.2 ⟨hd, ih hds⟩

end

namespace Code

variable {c p : Code} {f : Function} {n : Nat}

/-- The longest path down from a piece. A call may get to a source, which has its code elsewhere. -/
def height : Code → Nat
  | expr e => e.height
  | stmt _ st => st.height
  | body b => b.height + 1
  | script stmts => Stmt.heightAll stmts + 1
  | call => 1
  | load _ => 0

theorem height_stmts {jumps : Jumps} {stmts : List Stmt} (hp : p ∈ stmts.map (.stmt jumps))
    : p.height ≤ Stmt.heightAll stmts := by
  obtain ⟨st, hst, rfl⟩ := List.mem_map.1 hp
  exact Stmt.heightAll_le_iff.1 (Nat.le_refl _) st hst

theorem height_expr? {e : Option Expr} (hp : p ∈ e.toList.map .expr) : p.height ≤ Expr.height? e := by
  cases e with
  | none => cases hp
  | some e =>
    cases List.mem_singleton.1 hp
    exact Nat.le_refl _

theorem height_stmts? {jumps : Jumps} {stmts : Option (List Stmt)}
    (hp : p ∈ (stmts.getD []).map (.stmt jumps))
    : p.height ≤ Stmt.heightAll? stmts := by
  cases stmts with
  | none => cases hp
  | some stmts => exact height_stmts hp

theorem height_handler {jumps : Jumps} {handler : Option Handler}
    (hp : p ∈ ((handler.map Handler.body).getD []).map (.stmt jumps))
    : p.height ≤ Handler.height? handler := by
  cases handler with
  | none => cases hp
  | some handler =>
    cases handler
    exact height_stmts hp

theorem height_expr_part {e : Expr} (hp : p ∈ e.parts) : p.height < e.height := by
  cases e with
  | number | string | bool | null | undefined | name | function => cases hp
  | array elements =>
    obtain ⟨e, he, rfl⟩ := List.mem_map.1 hp
    exact Nat.lt_succ_of_le (Expr.heightAll_le_iff.1 (Nat.le_refl _) e he)
  | object properties =>
    obtain ⟨q, hq, rfl⟩ := List.mem_map.1 hp
    exact Nat.lt_succ_of_le (Property.heightAll_le_iff.1 (Nat.le_refl _) q hq)
  | unary | member =>
    cases List.mem_singleton.1 hp
    exact Nat.lt_succ_self _
  | binary | assign | compound | index =>
    simp only [Expr.parts, List.mem_cons, List.not_mem_nil, or_false] at hp
    rcases hp with rfl | rfl <;> simp only [height, Expr.height] <;> omega
  | conditional =>
    simp only [Expr.parts, List.mem_cons, List.not_mem_nil, or_false] at hp
    rcases hp with rfl | rfl | rfl <;> simp only [height, Expr.height] <;> omega
  | call callee args =>
    simp only [Expr.parts, List.mem_cons, List.mem_map] at hp
    rcases hp with rfl | rfl | ⟨e, he, rfl⟩
    . exact Nat.lt_succ_of_le (Nat.le_trans callee.height_pos (Nat.le_max_left _ _))
    . exact Nat.lt_succ_of_le (Nat.le_max_left _ _)
    . have harg := Expr.heightAll_le_iff.1 (Nat.le_refl _) e he
      exact Nat.lt_succ_of_le (Nat.le_trans harg (Nat.le_max_right _ _))

theorem height_stmt_part {jumps : Jumps} {st : Stmt} (hp : p ∈ st.parts jumps) : p.height < st.height := by
  cases st with
  | function | «break» | «continue» | empty => cases hp
  | declare kind ds =>
    simp only [Stmt.parts, List.mem_map, List.mem_filterMap] at hp
    obtain ⟨e, ⟨d, hd, hinit⟩, rfl⟩ := hp
    have hle := Declarator.heightAll_le_iff.1 (Nat.le_refl _) d hd
    rw [hinit] at hle
    exact Nat.lt_succ_of_le hle
  | «return» => exact Nat.lt_succ_of_le (height_expr? hp)
  | «if» =>
    simp only [Stmt.parts, List.map_append, List.mem_cons, List.mem_append] at hp
    simp only [Stmt.height]
    rcases hp with rfl | hp | hp
    . simp only [height]
      omega
    . have := height_stmts hp
      omega
    . have := height_stmts? hp
      omega
  | «while» | doWhile =>
    simp only [Stmt.parts, List.mem_cons] at hp
    simp only [Stmt.height]
    rcases hp with rfl | hp
    . simp only [height]
      omega
    . have := height_stmts hp
      omega
  | «for» init =>
    simp only [Stmt.parts, List.mem_append] at hp
    simp only [Stmt.height]
    rcases hp with ((hp | hp) | hp) | hp
    . cases init with
      | none => cases hp
      | some init =>
        cases List.mem_singleton.1 hp
        simp only [height, Stmt.height?]
        omega
    . have := height_expr? hp
      omega
    . have := height_expr? hp
      omega
    . have := height_stmts hp
      omega
  | throw | expr =>
    cases List.mem_singleton.1 hp
    exact Nat.lt_succ_self _
  | «try» =>
    simp only [Stmt.parts, List.map_append, List.mem_append] at hp
    simp only [Stmt.height]
    rcases hp with (hp | hp) | hp
    . have := height_stmts hp
      omega
    . have := height_handler hp
      omega
    . have := height_stmts? hp
      omega
  | block => exact Nat.lt_succ_of_le (height_stmts hp)

theorem height_part (hp : p ∈ c.parts) : p.height < c.height := by
  cases c with
  | expr e => exact height_expr_part hp
  | stmt jumps st => exact height_stmt_part hp
  | body b =>
    cases b with
    | block stmts => exact Nat.lt_succ_of_le (height_stmts hp)
    | expr value =>
      cases List.mem_singleton.1 hp
      exact Nat.lt_succ_self _
  | script stmts => exact Nat.lt_succ_of_le (height_stmts hp)
  | call | load => cases hp

/-- The parts of a piece. A function has those of its body, and a source is the script that is in it. -/
def pieces : Code → List Code
  | expr (.function f) | stmt _ (.function f) => f.body.parts
  | load source =>
    match parse source with
    | .ok stmts => [script stmts]
    | .error _ => []
  | c => c.parts

theorem mem_pieces_of_mem_parts (hp : p ∈ c.parts) : p ∈ c.pieces := by
  unfold pieces
  split
  . cases hp
  . cases hp
  . cases hp
  . exact hp

def isLoop : Code → Bool
  | stmt _ st => st.isLoop
  | _ => false

/-- There is no loop in the code, and none in the functions that stand in it. -/
def LoopFree (c : Code) : Prop :=
  ∀ p, Relation.ReflTransGen (fun c p => p ∈ c.pieces) c p → p.isLoop = false

theorem loopFree_iff : c.LoopFree ↔ c.isLoop = false ∧ ∀ p ∈ c.pieces, p.LoopFree := by
  constructor
  . exact fun hc => ⟨hc c .refl, fun p hp q hq => hc q (.head hp hq)⟩
  . rintro ⟨hc, hpieces⟩ p hp
    rcases Relation.ReflTransGen.cases_head hp with rfl | ⟨q, hq, hqp⟩
    . exact hc
    . exact hpieces q hq p hqp

/-- Look for loops down to a depth, below which there must be nothing. -/
def hasNoLoop : (depth : Nat) → Code → Bool
  | 0, _ => false
  | depth + 1, c => !c.isLoop && c.pieces.all (hasNoLoop depth)

theorem loopFree_of_hasNoLoop (hc : hasNoLoop n c) : c.LoopFree := by
  induction n generalizing c with
  | zero => cases hc
  | succ n ih =>
    rw [hasNoLoop, Bool.and_eq_true, Bool.not_eq_true', List.all_eq_true] at hc
    exact loopFree_iff.2 ⟨hc.1, fun p hp => ih (hc.2 p hp)⟩

namespace LoopFree

theorem part (hc : c.LoopFree) (hp : p ∈ c.parts) : p.LoopFree :=
  (loopFree_iff.1 hc).2 p (mem_pieces_of_mem_parts hp)

theorem body (hc : c.LoopFree) (hpieces : c.pieces = f.body.parts) : (Code.body f.body).LoopFree := by
  refine loopFree_iff.2 ⟨rfl, fun p hp => ?_⟩
  apply (loopFree_iff.1 hc).2
  rw [hpieces]
  exact hp

theorem script {source : String} {stmts : List Stmt} (hc : (load source).LoopFree)
    (hparse : parse source = .ok stmts)
    : (Code.script stmts).LoopFree := by
  apply (loopFree_iff.1 hc).2
  simp [pieces, hparse]

end LoopFree
end Code

/-! A function is no higher than the code that it stands in. -/

mutual

theorem Expr.height_of_mem_functions {f : Function} : (e : Expr) → f ∈ e.functions → f.height ≤ e.height
  | .number .., hf | .string .., hf | .bool .., hf | .null _, hf | .undefined _, hf | .name .., hf =>
    absurd hf List.not_mem_nil
  | .array elements _, hf => Nat.le_succ_of_le (Expr.height_of_mem_functionsAll elements hf)
  | .object properties _, hf => Nat.le_succ_of_le (Property.height_of_mem_functionsAll properties hf)
  | .function g, hf => Nat.le_succ_of_le (Function.height_of_mem_functions g hf)
  | .binary _ left right _, hf => by
    have hleft := left.height_of_mem_functions (f := f)
    have hright := right.height_of_mem_functions (f := f)
    grind [Expr.functions, Expr.height]
  | .unary _ operand _, hf => Nat.le_succ_of_le (operand.height_of_mem_functions hf)
  | .assign target value _, hf | .compound _ target value _, hf => by
    have htarget := target.height_of_mem_functions (f := f)
    have hvalue := value.height_of_mem_functions (f := f)
    grind [Expr.functions, Expr.height]
  | .conditional condition whenTrue whenFalse _, hf => by
    have hcondition := condition.height_of_mem_functions (f := f)
    have htrue := whenTrue.height_of_mem_functions (f := f)
    have hfalse := whenFalse.height_of_mem_functions (f := f)
    grind [Expr.functions, Expr.height]
  | .call callee args _, hf => by
    have hcallee := callee.height_of_mem_functions (f := f)
    have hargs := Expr.height_of_mem_functionsAll (f := f) args
    grind [Expr.functions, Expr.height]
  | .member object _ _, hf => Nat.le_succ_of_le (object.height_of_mem_functions hf)
  | .index object key _, hf => by
    have hobject := object.height_of_mem_functions (f := f)
    have hkey := key.height_of_mem_functions (f := f)
    grind [Expr.functions, Expr.height]

theorem Expr.height_of_mem_functionsAll {f : Function}
    : (es : List Expr) → f ∈ Expr.functionsAll es → f.height ≤ Expr.heightAll es
  | [], hf => absurd hf List.not_mem_nil
  | e :: es, hf => by
    have he := e.height_of_mem_functions (f := f)
    have hes := Expr.height_of_mem_functionsAll (f := f) es
    grind [Expr.functionsAll, Expr.heightAll]

theorem Expr.height_of_mem_functions? {f : Function}
    : (e : Option Expr) → f ∈ Expr.functions? e → f.height ≤ Expr.height? e
  | some e, hf => e.height_of_mem_functions hf
  | none, hf => absurd hf List.not_mem_nil

theorem Property.height_of_mem_functionsAll {f : Function}
    : (ps : List Property) → f ∈ Property.functionsAll ps → f.height ≤ Property.heightAll ps
  | [], hf => absurd hf List.not_mem_nil
  | ⟨_, value⟩ :: ps, hf => by
    have hvalue := value.height_of_mem_functions (f := f)
    have hps := Property.height_of_mem_functionsAll (f := f) ps
    grind [Property.functionsAll, Property.heightAll]

theorem Function.height_of_mem_functions {f : Function}
    : (g : Function) → f ∈ g.functions → f.height ≤ g.height
  | ⟨_, _, body, _⟩, hf => by
    rcases List.mem_cons.1 hf with rfl | hf
    . exact Nat.le_refl _
    . exact body.height_of_mem_functions hf

theorem FunctionBody.height_of_mem_functions {f : Function}
    : (b : FunctionBody) → f ∈ b.functions → f.height ≤ b.height
  | .block stmts, hf => Stmt.height_of_mem_functionsAll stmts hf
  | .expr value, hf => value.height_of_mem_functions hf

theorem Stmt.height_of_mem_functions {f : Function} : (st : Stmt) → f ∈ st.functions → f.height ≤ st.height
  | .declare _ declarators _, hf => Nat.le_succ_of_le (Declarator.height_of_mem_functionsAll declarators hf)
  | .function g, hf => Nat.le_succ_of_le (Function.height_of_mem_functions g hf)
  | .return value _, hf => Nat.le_succ_of_le (Expr.height_of_mem_functions? value hf)
  | .if condition thenBranch elseBranch _, hf => by
    have hcondition := condition.height_of_mem_functions (f := f)
    have hthen := Stmt.height_of_mem_functionsAll (f := f) thenBranch
    have helse := Stmt.height_of_mem_functionsAll? (f := f) elseBranch
    grind [Stmt.functions, Stmt.height]
  | .while condition body _, hf | .doWhile body condition _, hf => by
    have hcondition := condition.height_of_mem_functions (f := f)
    have hbody := Stmt.height_of_mem_functionsAll (f := f) body
    grind [Stmt.functions, Stmt.height]
  | .for init condition update body _, hf => by
    have hinit := Stmt.height_of_mem_functions? (f := f) init
    have hcondition := Expr.height_of_mem_functions? (f := f) condition
    have hupdate := Expr.height_of_mem_functions? (f := f) update
    have hbody := Stmt.height_of_mem_functionsAll (f := f) body
    grind [Stmt.functions, Stmt.height]
  | .break _, hf | .continue _, hf | .empty _, hf => absurd hf List.not_mem_nil
  | .throw value _, hf | .expr value _, hf => Nat.le_succ_of_le (value.height_of_mem_functions hf)
  | .try stmts handler finalizer _, hf => by
    have hstmts := Stmt.height_of_mem_functionsAll (f := f) stmts
    have hhandler := Handler.height_of_mem_functions? (f := f) handler
    have hfinalizer := Stmt.height_of_mem_functionsAll? (f := f) finalizer
    grind [Stmt.functions, Stmt.height]
  | .block stmts _, hf => Nat.le_succ_of_le (Stmt.height_of_mem_functionsAll stmts hf)

theorem Stmt.height_of_mem_functions? {f : Function}
    : (st : Option Stmt) → f ∈ Stmt.functions? st → f.height ≤ Stmt.height? st
  | some st, hf => st.height_of_mem_functions hf
  | none, hf => absurd hf List.not_mem_nil

theorem Stmt.height_of_mem_functionsAll {f : Function}
    : (stmts : List Stmt) → f ∈ Stmt.functionsAll stmts → f.height ≤ Stmt.heightAll stmts
  | [], hf => absurd hf List.not_mem_nil
  | st :: stmts, hf => by
    have hst := st.height_of_mem_functions (f := f)
    have hstmts := Stmt.height_of_mem_functionsAll (f := f) stmts
    grind [Stmt.functionsAll, Stmt.heightAll]

theorem Stmt.height_of_mem_functionsAll? {f : Function}
    : (stmts : Option (List Stmt)) → f ∈ Stmt.functionsAll? stmts → f.height ≤ Stmt.heightAll? stmts
  | some stmts, hf => Stmt.height_of_mem_functionsAll stmts hf
  | none, hf => absurd hf List.not_mem_nil

theorem Declarator.height_of_mem_functionsAll {f : Function}
    : (ds : List Declarator) → f ∈ Declarator.functionsAll ds → f.height ≤ Declarator.heightAll ds
  | [], hf => absurd hf List.not_mem_nil
  | ⟨_, init, _⟩ :: ds, hf => by
    have hinit := Expr.height_of_mem_functions? (f := f) init
    have hds := Declarator.height_of_mem_functionsAll (f := f) ds
    grind [Declarator.functionsAll, Declarator.heightAll]

theorem Handler.height_of_mem_functions? {f : Function}
    : (handler : Option Handler) → f ∈ Handler.functions? handler → f.height ≤ Handler.height? handler
  | some ⟨_, body⟩, hf => Stmt.height_of_mem_functionsAll body hf
  | none, hf => absurd hf List.not_mem_nil

end

/-- How high a script can get, at most. -/
def Script.maxHeight : Nat :=
  4 * Grammar.maxNesting ^ 2

theorem Script.height_le_maxHeight {source : String} {stmts : List Stmt} (hparse : parse source = .ok stmts)
    : Stmt.heightAll stmts ≤ maxHeight := by
  obtain ⟨tokens, i, -, hrun⟩ := parse_eq_ok_iff.1 hparse
  have hgives : Gives Grammar.script (∀ st ∈ ·, Stmt.height st ≤ Grammar.tallest Grammar.maxNesting) :=
    .many ((Grammar.bounded_tallest Grammar.maxNesting).nestedStatement Grammar.maxNesting (Nat.le_refl _) {})
  have hheight := Stmt.heightAll_le (hgives _ _ _ _ hrun)
  have htallest := Grammar.two_mul_tallest Grammar.maxNesting
  unfold maxHeight
  unfold Grammar.maxNesting at *
  omega

end ScriptHost
