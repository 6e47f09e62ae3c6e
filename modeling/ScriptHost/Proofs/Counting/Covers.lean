import ScriptHost.Proofs.Counting.Agrees

/-!
This module contains that the rules with counters agree with those of the grammar, if the rules do that they nest
constructs with, and that rules agree for as many levels as they can call each other deep. A chain is read in a
loop here and by rules that nest there.
-/

namespace ScriptHost.Counting

open Grammar (ofLevels)

/-- The rules agree with those of the grammar for each number of levels below `n`. -/
class Covers (s : TokenStream) (n : Nat) (calls : Rules) : Prop where
  statement : ∀ m < n, ∀ jumps, Agrees s m 0 jumps calls.statement (Grammar.statementRule (ofLevels m) jumps)
  assignment : ∀ m < n, ∀ jumps, Agrees s m 0 jumps calls.assignment (Grammar.assignmentRule (ofLevels m))
  unary : ∀ m < n, ∀ jumps, Agrees s m 0 jumps calls.unary (Grammar.unaryRule (ofLevels m))

theorem Covers.mono {s : TokenStream} {m n : Nat} {calls : Rules} (h : Covers s n calls) (hm : m ≤ n)
    : Covers s m calls where
  statement k hk := h.statement k (Nat.lt_of_lt_of_le hk hm)
  assignment k hk := h.assignment k (Nat.lt_of_lt_of_le hk hm)
  unary k hk := h.unary k (Nat.lt_of_lt_of_le hk hm)

variable {s : TokenStream} [s.Ended] {fuel : Nat} [Enough s fuel] {n : Nat} {jumps : Jumps} {calls : Rules}

namespace Agrees

section

variable [hcalls : Covers s n calls]

instance : Agrees s n 0 jumps (nestedStatement calls) (Grammar.nestedStatement (ofLevels n) jumps) :=
  nested fun m hm => hcalls.statement m (by omega) jumps

instance : Agrees s n 0 jumps (expression calls) (Grammar.expression (ofLevels n)) :=
  nested fun m hm => hcalls.assignment m (by omega) jumps

instance : Agrees s n 0 jumps (Reader.nested calls.unary) (Grammar.nested (ofLevels n) fun g => g.unary) :=
  nested fun m hm => hcalls.unary m (by omega) jumps

instance
    : Agrees s n 0 jumps (statements fuel calls)
      (Parser.many Grammar.inBlock (Grammar.nestedStatement (ofLevels n) jumps)) := by
  unfold statements
  infer_instance

instance : Agrees s n 0 jumps (braced fuel calls) (Grammar.braced (ofLevels n) jumps) := by
  unfold braced Grammar.braced
  infer_instance

instance (named : Bool)
    : Agrees s n 0 jumps (functionLiteral fuel calls named) (Grammar.functionLiteral (ofLevels n) named) := by
  unfold functionLiteral Grammar.functionLiteral
  refine .bind inferInstance fun start => .bind inferInstance fun _ => .bind inferInstance fun token => ?_
  dsimp only
  cases named with
  | true => infer_instance
  | false => cases token.kind <;> infer_instance

instance : Agrees s n 0 jumps (arrayLiteral fuel calls) (Grammar.arrayLiteral (ofLevels n)) := by
  unfold arrayLiteral Grammar.arrayLiteral
  infer_instance

instance : Agrees s n 0 jumps (property calls) (Grammar.property (ofLevels n)) := by
  unfold property Grammar.property
  infer_instance

instance : Agrees s n 0 jumps (objectLiteral fuel calls) (Grammar.objectLiteral (ofLevels n)) := by
  unfold objectLiteral Grammar.objectLiteral
  infer_instance

instance : Agrees s n 0 jumps (primary fuel calls) (Grammar.primary (ofLevels n)) := by
  unfold primary Grammar.primary
  refine .bind inferInstance fun token => ?_
  cases Grammar.literal? token with
  | some e => infer_instance
  | none =>
    cases token.kind with
    | keyword word => cases word <;> infer_instance
    | symbol symbol => cases symbol <;> infer_instance
    | _ => infer_instance

instance
    : Agrees s n 0 jumps (arguments fuel calls)
      (Parser.listUntil .rightParen (Grammar.expression (ofLevels n))) := by
  unfold arguments
  infer_instance

end

/-! The rules for chains. Each link takes a level, which the rounds after it leave taken. -/

theorem accesses {rounds links : Nat} {object : Expr} (hcalls : Covers s n calls) (hrounds : n < rounds)
    : Agrees s n links jumps (Counting.accesses fuel calls rounds links object)
      (Grammar.accesses (ofLevels n) object) := by
  induction n using Nat.strongRecOn generalizing rounds links object with
  | ind n ih =>
    obtain ⟨rounds, rfl⟩ := Nat.exists_eq_add_of_le' (Nat.lt_of_le_of_lt (Nat.zero_le n) hrounds)
    refine ⟨fun {c} hc => ?_⟩
    unfold Counting.accesses Grammar.accesses
    refine .peek hc ?_
    generalize htoken : s.get c.position = token
    obtain ⟨kind, loc⟩ := token
    cases kind with
    | symbol symbol =>
      cases symbol with
      | leftParen | dot | leftBracket =>
        refine .enter hc fun m hm => .peek_again ?_
        subst hm
        have hbelow : Covers s m calls := hcalls.mono (Nat.le_succ m)
        have hrest : ∀ object, Agrees s m (links + 1) jumps
            (Counting.accesses fuel calls rounds (links + 1) object) (Grammar.accesses (ofLevels m) object) :=
          fun _ => ih m (Nat.lt_succ_self m) hbelow (Nat.lt_of_succ_lt_succ hrounds)
        rw [htoken]
        exact Agrees.agrees hc.entered
      | _ => exact leave.agrees hc
    | _ => exact leave.agrees hc

theorem operators {level : Precedence} {tighter : List Precedence} {operand : Reader Expr} {rounds links : Nat}
    {left : Expr} (hoperand : ∀ m < n, Agrees s m 0 jumps operand (Grammar.binary (ofLevels m) tighter))
    (hrounds : n < rounds)
    : Agrees s n links jumps (Counting.operators level operand rounds links left)
      (Grammar.operators (ofLevels n) level tighter left) := by
  induction n using Nat.strongRecOn generalizing rounds links left with
  | ind n ih =>
    obtain ⟨rounds, rfl⟩ := Nat.exists_eq_add_of_le' (Nat.lt_of_le_of_lt (Nat.zero_le n) hrounds)
    unfold Counting.operators Grammar.operators
    refine .bind inferInstance fun token => ?_
    cases Grammar.binaryOp? level token.kind with
    | none => exact leave
    | some op =>
      refine .bind inferInstance fun _ => ⟨fun hc => .enter hc fun m hm => ?_⟩
      subst hm
      have hright := hoperand m (Nat.lt_succ_self m)
      have hrest : ∀ left, Agrees s m (links + 1) jumps (Counting.operators level operand rounds (links + 1) left)
          (Grammar.operators (ofLevels m) level tighter left) :=
        fun _ => ih m (Nat.lt_succ_self m) (fun k hk => hoperand k (Nat.lt_succ_of_lt hk))
          (Nat.lt_of_succ_lt_succ hrounds)
      exact (hright.bind fun right => hrest (.binary op left right token.loc)).agrees hc.entered

section

variable [hcalls : Covers s n calls]

instance : Agrees s n 0 jumps (accessed fuel calls)
    (Grammar.primary (ofLevels n) >>= Grammar.accesses (ofLevels n)) :=
  .of_le fun hn => .bind inferInstance fun _ =>
    accesses hcalls (Nat.lt_of_le_of_lt hn (Enough.maxNesting_lt s))

instance : Agrees s n 0 jumps (updated fuel calls) (Grammar.updated (ofLevels n)) := by
  unfold updated Grammar.updated
  dsimp only
  refine .of_assoc (.bind inferInstance fun operand => .bind inferInstance fun newline => .ite inferInstance ?_)
  refine .bind inferInstance fun token => ?_
  cases token.kind with
  | symbol symbol => cases symbol <;> infer_instance
  | _ => infer_instance

instance : Agrees s n 0 jumps (unaryRule fuel calls) (Grammar.unaryRule (ofLevels n)) := by
  unfold unaryRule Grammar.unaryRule
  refine .bind inferInstance fun token => ?_
  cases Grammar.unaryOp? token.kind with
  | none => infer_instance
  | some op =>
    dsimp only
    infer_instance

end

theorem binary {levels : List Precedence} (hcalls : Covers s n calls)
    : Agrees s n 0 jumps (Counting.binary fuel calls levels) (Grammar.binary (ofLevels n) levels) := by
  induction levels generalizing n with
  | nil => exact inferInstanceAs (Agrees s n 0 jumps (unaryRule fuel calls) (Grammar.unaryRule (ofLevels n)))
  | cons level tighter ih =>
    refine .of_le fun hn => .bind (ih hcalls) fun left => ?_
    exact operators (fun m hm => ih (hcalls.mono (Nat.le_of_lt hm))) (Nat.lt_of_le_of_lt hn (Enough.maxNesting_lt s))

section

variable [hcalls : Covers s n calls]

instance {levels : List Precedence}
    : Agrees s n 0 jumps (Counting.binary fuel calls levels) (Grammar.binary (ofLevels n) levels) :=
  binary hcalls

instance : Agrees s n 0 jumps (conditional fuel calls) (Grammar.conditional (ofLevels n)) := by
  unfold conditional Grammar.conditional
  infer_instance

instance : Agrees s n 0 jumps (arrowFunction fuel calls) (Grammar.arrowFunction (ofLevels n)) := by
  unfold arrowFunction Grammar.arrowFunction
  dsimp only
  refine .bind inferInstance fun start => .bind inferInstance fun paren => ?_
  refine .ite (.bind inferInstance fun params => .bind inferInstance fun _ => .bind inferInstance fun params => ?_)
    (.bind inferInstance fun name => .bind inferInstance fun params => ?_)
  . exact .bind inferInstance fun _ => .of_branch inferInstance
  . exact .bind inferInstance fun _ => .of_branch inferInstance

instance : Agrees s n 0 jumps (assignmentRule fuel calls) (Grammar.assignmentRule (ofLevels n)) := by
  unfold assignmentRule Grammar.assignmentRule
  refine .bind inferInstance fun arrow => .ite inferInstance ?_
  refine .bind inferInstance fun target => .bind inferInstance fun token => ?_
  cases Grammar.assignOp? token.kind with
  | none => infer_instance
  | some op? =>
    dsimp only
    cases op? <;> infer_instance

end

/-! The rules for statements. -/

section

variable [hcalls : Covers s n calls] (loc : Location)

instance : Agrees s n 0 jumps (body fuel calls) (Grammar.body (ofLevels n) jumps) := by
  unfold body Grammar.body
  infer_instance

instance : Agrees s n 0 jumps (condition calls) (Grammar.condition (ofLevels n)) := by
  unfold condition Grammar.condition
  infer_instance

instance {kind : DeclareKind} : Agrees s n 0 jumps (declarator calls kind) (Grammar.declarator (ofLevels n) kind) := by
  unfold declarator Grammar.declarator
  dsimp only
  infer_instance

instance {kind : DeclareKind}
    : Agrees s n 0 jumps (declaration fuel calls kind) (Grammar.declaration (ofLevels n) kind) := by
  unfold declaration Grammar.declaration
  infer_instance

instance : Agrees s n 0 jumps (returnStatement calls loc) (Grammar.returnStatement (ofLevels n) loc) := by
  unfold returnStatement Grammar.returnStatement
  dsimp only
  infer_instance

instance : Agrees s n 0 jumps (ifStatement fuel calls loc) (Grammar.ifStatement (ofLevels n) jumps loc) := by
  unfold ifStatement Grammar.ifStatement
  dsimp only
  infer_instance

instance : Agrees s n 0 jumps (whileStatement fuel calls loc) (Grammar.whileStatement (ofLevels n) jumps loc) := by
  unfold whileStatement Grammar.whileStatement
  infer_instance

instance : Agrees s n 0 jumps (doStatement fuel calls loc) (Grammar.doStatement (ofLevels n) jumps loc) := by
  unfold doStatement Grammar.doStatement
  infer_instance

instance {close : Symbol}
    : Agrees s n 0 jumps (optionalExpression calls close) (Grammar.optionalExpression (ofLevels n) close) := by
  unfold optionalExpression Grammar.optionalExpression
  infer_instance

instance : Agrees s n 0 jumps (forInit fuel calls) (Grammar.forInit (ofLevels n)) := by
  unfold forInit Grammar.forInit
  refine .bind inferInstance fun token => .ite inferInstance ?_
  cases Grammar.declareKind? token.kind <;> infer_instance

instance : Agrees s n 0 jumps (forStatement fuel calls loc) (Grammar.forStatement (ofLevels n) jumps loc) := by
  unfold forStatement Grammar.forStatement
  refine .bind inferInstance fun _ => .bind inferInstance fun init => .bind inferInstance fun _ => ?_
  infer_instance

omit [Enough s fuel] hcalls in
instance : Agrees s n 0 jumps handlerParam Grammar.handlerParam := by
  unfold handlerParam Grammar.handlerParam
  infer_instance

instance : Agrees s n 0 jumps (tryStatement fuel calls loc) (Grammar.tryStatement (ofLevels n) jumps loc) := by
  unfold tryStatement Grammar.tryStatement
  dsimp only
  refine .bind inferInstance fun block => .bind inferInstance fun found => .ite ?_ inferInstance
  refine .bind inferInstance fun param => .bind inferInstance fun body => ?_
  infer_instance

instance : Agrees s n 0 jumps (throwStatement calls loc) (Grammar.throwStatement (ofLevels n) loc) := by
  unfold throwStatement Grammar.throwStatement
  dsimp only
  infer_instance

instance : Agrees s n 0 jumps (statementRule fuel calls) (Grammar.statementRule (ofLevels n) jumps) := by
  unfold statementRule Grammar.statementRule
  refine .bind inferInstance fun ⟨kind, loc⟩ => ?_
  dsimp only
  cases kind with
  | keyword word =>
    cases word with
    | «return» | «break» | «continue» => exact .jumps_bind inferInstance
    | _ => infer_instance
  | symbol symbol => cases symbol <;> infer_instance
  | _ => infer_instance

end

end Agrees

/-- Each level that is left is one call deeper. -/
theorem covers_rules {depth : Nat} (hn : n ≤ depth) : Covers s n (rules fuel depth) := by
  induction depth generalizing n with
  | zero =>
    cases Nat.le_zero.1 hn
    exact ⟨nofun, nofun, nofun⟩
  | succ depth ih =>
    have hbelow : ∀ m < n, Covers s m (rules fuel depth) := fun m hm => ih (by omega)
    constructor
    . intro m hm jumps
      have := hbelow m hm
      exact inferInstanceAs (Agrees s m 0 jumps (statementRule fuel (rules fuel depth)) _)
    . intro m hm jumps
      have := hbelow m hm
      exact inferInstanceAs (Agrees s m 0 jumps (assignmentRule fuel (rules fuel depth)) _)
    . intro m hm jumps
      have := hbelow m hm
      exact inferInstanceAs (Agrees s m 0 jumps (unaryRule fuel (rules fuel depth)) _)

end ScriptHost.Counting
