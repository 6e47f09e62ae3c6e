import ScriptHost.Proofs.Syntax.KeepsLoops

/-!
This module contains that the rules for expressions keep their results in a copy of the tokens with the missing
semicolons inserted. Semicolons can be missing in the functions that an expression contains.
-/

namespace ScriptHost

open Grammar Known

/-- What is read where an expression may be assigned to and no arrow function starts. -/
def Grammar.plainAssignment (lower : Option Grammar) : Parser Expr := do
  let target ← conditional lower
  let token ← Parser.peek
  match assignOp? token.kind with
  | none => return target
  | some op? =>
    unless target.isAssignable do
      Parser.fail .invalidAssignmentTarget target.loc
    Parser.advance
    let value ← expression lower
    match op? with
    | none => return .assign target value token.loc
    | some op => return .compound op target value token.loc

theorem Grammar.assignmentRule_at (lower : Option Grammar) {s : TokenStream} {i : Nat} {found : Bool}
    (h : Parser.startsArrow s i = found)
    : (assignmentRule lower).at s i = (if found then arrowFunction lower else plainAssignment lower).at s i := by
  unfold assignmentRule
  rw [Parser.bind_at, Parser.atArrowFunction_at, h]
  rfl

/-- A semicolon is none of the operators of a level. -/
def Stopped (level : Precedence) : Prop :=
  binaryOp? level (.symbol .semicolon) = none

/-- The rules that run with `n` levels of nesting left keep their results. -/
structure KeepsAt (s : TokenStream) (n : Nat) : Prop where
  expression : ∀ k P, Keeps s k P true fun due => expression (demanding due n)
  nestedStatement : ∀ k P jumps, Keeps s k P false fun due => nestedStatement (demanding due n) jumps
  unary : ∀ k P, Keeps s k P true fun due => nested (demanding due n) fun g => g.unary
  operand : ∀ k P level tighter op loc left, Stopped level → (∀ level ∈ tighter, Stopped level) →
    Keeps s k P true fun due => nested (demanding due n) fun g => g.operand level tighter op loc left
  access : ∀ k P object, (s.get k).kind ≠ .endOfInput →
    Keeps s k P true fun due => nested (demanding due n) fun g => g.access object

namespace KeepsAt

variable {s : TokenStream} {k n : Nat} {P : Known} {c : Bool}

theorem inBlock : Keeps s k P false fun _ => inBlock :=
  .seen (.checkSymbol (.ite (fun _ => .pure) fun _ => .atEnd .pure))

/-- The names of parameters, as rounds of a loop. -/
def parametersRound (params : List String) : Parser (List String ⊕ List String) := do
  let loc ← Parser.location
  let param ← Parser.name
  if params.contains param then
    Parser.fail .duplicateParameter loc
  let params := params ++ [param]
  if ← Parser.acceptSymbol .comma then
    return .inl params
  else
    return .inr params

theorem parameters_go_eq_rounds (fuel : Nat) (params : List String)
    : parameters.go fuel params = Parser.rounds parametersRound id fuel params := by
  induction fuel generalizing params with
  | zero => rfl
  | succ fuel ih =>
    rw [parameters.go, Parser.rounds, parametersRound]
    simp only [ih, bind_assoc]
    congr 1
    funext loc
    congr 1
    funext param
    split
    . rfl
    . simp only [bind_assoc]
      congr 1
      funext found
      split <;> rw [pure_bind]

instance (params : List String) : Takes 1 (parametersRound params) := by
  unfold parametersRound
  dsimp only
  infer_instance

theorem parameters : Keeps s k P false fun _ => parameters := by
  refine .seen (.checkSymbol (.ite (fun _ => .pure) fun _ => ?_))
  simp only [parameters_go_eq_rounds]
  refine .rounds (fun _ _ => .seen_taking (.location ?_)) fun hok => Takes.advances (n := 1) _ _ hok
  exact Keeps.name.bind fun _ _ => .ite (fun _ => .fail_bind) fun _ =>
    (Keeps.acceptSymbol (.inr (by decide))).bind fun _ _ => .ite (fun _ => .pure) fun _ => .pure

theorem propertyKey : Keeps s k P c fun _ => propertyKey := by
  refine .seen_taking (.peek ?_)
  split
  . next hkind => exact .after_advance (by simp [hkind]) .pure
  . next hkind => exact .after_advance (by simp [hkind]) .pure
  . exact Keeps.propertyName.bind fun _ _ => .pure
  . exact Keeps.propertyName.bind fun _ _ => .pure

theorem stopped_precedences : ∀ level ∈ precedences, Stopped level := by
  unfold Stopped
  decide

variable (h : KeepsAt s n)
include h

theorem braced (jumps : Jumps) : Keeps s k P true fun due => braced (demanding due n) jumps :=
  Keeps.expectSymbol.bind fun _ _ => .bind_taking (.many (fun _ _ => inBlock) fun k P => h.nestedStatement k P jumps)
    fun _ _ => Keeps.expectSymbol.bind fun _ _ => .pure

theorem functionLiteral (named : Bool) : Keeps s k P true fun due => functionLiteral (demanding due n) named := by
  refine .seen_taking ?_
  unfold Grammar.functionLiteral
  refine .location (Keeps.expectKeyword.bind fun _ i => ?_)
  have hrest : ∀ (name : Option String) (start : Location) (k : Nat) (P : Known), Keeps s k P true fun due => do
      Parser.expectSymbol .leftParen
      let params ← Grammar.parameters
      Parser.expectSymbol .rightParen
      let body ← Grammar.braced (demanding due n) { inFunction := true }
      return (⟨name, params, .block body, start.through (← Parser.previous).loc⟩ : Function) := by
    intro name start k P
    refine Keeps.expectSymbol.bind fun _ _ => .bind_taking parameters fun params _ => ?_
    exact Keeps.expectSymbol.bind fun _ _ => (h.braced _).after fun _ _ => .previous .pure
  refine @Keeps.seen_taking _ _ _ _ _ _ (.after fun token => by split <;> infer_instance) (.peek ?_)
  cases named with
  | true => exact Keeps.name.map.bind fun _ _ => hrest _ _ _ _
  | false =>
    cases (s.get i).kind with
    | name text => exact Keeps.name.map.bind fun _ _ => hrest _ _ _ _
    | _ => exact .pure_bind (hrest _ _ _ _)

theorem property : Keeps s k P false fun due => property (demanding due n) := by
  refine .seen (.location (propertyKey.bind fun key _ => ?_))
  refine (Keeps.acceptSymbol (.inl rfl)).bind fun _ _ => .ite (fun _ => ?_) fun _ => ?_
  . exact .of_closed ((h.expression _ _).bind fun _ _ => .pure)
  . exact .seen (.checkSymbol (.checkSymbol (.ite (fun _ => .pure) fun _ => .unexpected)))

theorem arrayLiteral : Keeps s k P true fun due => arrayLiteral (demanding due n) := by
  refine .seen_taking (.location (Keeps.expectSymbol.bind fun _ _ => ?_))
  refine .bind_taking (.listUntil fun k P => .of_closed (h.expression k P)) fun _ _ => ?_
  exact Keeps.expectSymbol.after fun _ _ => .previous .pure

theorem objectLiteral : Keeps s k P true fun due => objectLiteral (demanding due n) := by
  refine .seen_taking (.location (Keeps.expectSymbol.bind fun _ _ => ?_))
  refine .bind_taking (.listUntil fun _ _ => h.property) fun _ _ => ?_
  exact Keeps.expectSymbol.after fun _ _ => .previous .pure

theorem primary : Keeps s k P true fun due => primary (demanding due n) := by
  refine .seen_taking (.peek ?_)
  cases hliteral : literal? (s.get k) with
  | some e => exact .after_advance (Takes.kind_of_literal? hliteral) .pure
  | none =>
    cases hkind : (s.get k).kind with
    | keyword word =>
      cases word with
      | function => exact (h.functionLiteral false).bind fun _ _ => .pure
      | _ => exact .unexpected
    | symbol symbol =>
      cases symbol with
      | leftBracket => exact h.arrayLiteral
      | leftBrace => exact h.objectLiteral
      | leftParen =>
        refine .after_advance (by simp [hkind]) ((h.expression _ _).bind fun _ _ => ?_)
        exact Keeps.expectSymbol.bind fun _ _ => .pure
      | _ => exact .unexpected
    | _ => exact .unexpected

theorem accesses (object : Expr) : Keeps s k P true fun due => accesses (demanding due n) object := by
  unfold Grammar.accesses
  refine .tail (a := object) (.look Parser.peek_at ?_) (fun due t i hi => ?_) (.peek ?_)
  . split <;> first | exact .of_takes | exact .pure
  . rw [Parser.bind_at, Parser.peek_at]
    simp only [Except.bind, hi]
    rfl
  . cases hkind : (s.get k).kind with
    | symbol symbol =>
      cases symbol with
      | leftParen | dot | leftBracket => exact h.access _ _ object (by simp [hkind])
      | _ => exact .pure
    | _ => exact .pure

theorem accessRule (object : Expr) (hkind : (s.get k).kind ≠ .endOfInput)
    : Keeps s k P true fun due => accessRule (demanding due n) object := by
  refine .seen_taking (.peek (.after_advance hkind ?_))
  have hindex : Keeps s (k + 1) (behind s (k + 1)) true fun due => (do
      let key ← Grammar.expression (demanding due n)
      Parser.expectSymbol .rightBracket
      Grammar.accesses (demanding due n)
        (.index object key ((s.get k).loc.through (← Parser.previous).loc)) : Parser Expr) :=
    (h.expression _ _).bind fun _ _ => Keeps.expectSymbol.after fun _ _ => .previous (h.accesses _)
  cases (s.get k).kind with
  | symbol symbol =>
    cases symbol with
    | leftParen =>
      refine .bind_taking (.listUntil fun _ _ => .of_closed (h.expression _ _)) fun _ _ => ?_
      exact Keeps.expectSymbol.bind fun _ _ => h.accesses _
    | dot => exact .seen_taking (.location (Keeps.propertyName.bind fun _ _ => h.accesses _))
    | _ => exact hindex
  | _ => exact hindex

theorem updated : Keeps s k P true fun due => updated (demanding due n) := by
  refine h.primary.after fun e _ => (h.accesses e).after_saw fun operand i => ?_
  refine .tail (a := operand) (.look Parser.lineBreakBefore_at (.ite .pure (.look Parser.peek_at ?_)))
    (fun due t j hj => ?_) (.lineBreakBefore (.ite (fun _ => .pure) fun _ => .peek ?_))
  . dsimp only
    split
    . exact .pure
    . next op hop =>
      refine .of_advances (.ite (.advance fun hkind => ?_) .fail_bind)
      rw [hkind] at hop
      cases hop
  . rw [Parser.bind_at, Parser.lineBreakBefore_at]
    dsimp only [Except.bind]
    split
    . rfl
    . rw [Parser.bind_at, Parser.peek_at]
      simp only [Except.bind, hj]
      rfl
  . cases hkind : (s.get i).kind with
    | symbol symbol =>
      cases symbol with
      | increment | decrement =>
        exact .ite (fun _ => .after_advance (by simp [hkind]) .pure) fun _ => .fail_bind
      | _ => exact .pure
    | _ => exact .pure

theorem unaryRule : Keeps s k P true fun due => unaryRule (demanding due n) := by
  refine .seen_taking (.peek ?_)
  cases hop : unaryOp? (s.get k).kind with
  | none => exact h.updated
  | some op =>
    refine .after_advance (fun hend => ?_) ((h.unary _ _).bind fun _ _ => .ite (fun _ => .fail_bind) fun _ => .pure)
    rw [hend] at hop
    cases hop

theorem operators {level : Precedence} {tighter : List Precedence} (hlevel : Stopped level)
    (htighter : ∀ level ∈ tighter, Stopped level) (left : Expr)
    : Keeps s k P true fun due => operators (demanding due n) level tighter left := by
  unfold Grammar.operators
  refine .tail (a := left) (.look Parser.peek_at ?_) (fun due t i hi => ?_) (.peek ?_)
  . split <;> first | exact .of_takes | exact .pure
  . rw [Parser.bind_at, Parser.peek_at]
    dsimp only [Except.bind]
    rw [hi, show binaryOp? level (.symbol .semicolon) = none from hlevel]
    rfl
  . cases hop : binaryOp? level (s.get k).kind with
    | none => exact .pure
    | some op =>
      refine .after_advance (fun hend => ?_) (h.operand _ _ level tighter op _ left hlevel htighter)
      rw [hend] at hop
      cases hop

theorem binary {levels : List Precedence} (hlevels : ∀ level ∈ levels, Stopped level)
    : Keeps s k P true fun due => binary (demanding due n) levels := by
  induction levels generalizing k P with
  | nil => exact h.unaryRule
  | cons level tighter ih =>
    obtain ⟨hlevel, htighter⟩ := List.forall_mem_cons.1 hlevels
    exact (ih htighter).bind fun left _ => h.operators hlevel htighter left

theorem operandRule {level : Precedence} {tighter : List Precedence} (hlevel : Stopped level)
    (htighter : ∀ level ∈ tighter, Stopped level) (op : BinaryOp) (loc : Location) (left : Expr)
    : Keeps s k P true fun due => operandRule (demanding due n) level tighter op loc left :=
  (h.binary htighter).bind fun _ _ => h.operators hlevel htighter _

theorem conditional : Keeps s k P true fun due => conditional (demanding due n) := by
  refine (h.binary stopped_precedences).bind fun e _ => ?_
  refine .tail (a := e) (.look Parser.location_at (.accept .pure)) (fun due t i hi => ?_) (.location ?_)
  . rw [Parser.bind_at, Parser.location_at]
    dsimp only [Except.bind]
    rw [Parser.bind_at, Parser.acceptSymbol_at, hi]
    rfl
  . refine (Keeps.acceptSymbol (.inr (by decide))).bind fun _ _ => .ite (fun _ => ?_) fun _ => .pure
    refine (h.expression _ _).bind fun _ _ => Keeps.expectSymbol.bind fun _ _ => ?_
    exact (h.expression _ _).bind fun _ _ => .pure

theorem arrowFunction : Keeps s k P true fun due => arrowFunction (demanding due n) := by
  refine .seen_taking ?_
  unfold Grammar.arrowFunction
  refine .location ?_
  have hrest : ∀ (params : List String) (start : Location) (k : Nat) (P : Known), Keeps s k P true fun due => do
      Parser.expectSymbol .arrow
      let body ← if ← Parser.checkSymbol .leftBrace then
          FunctionBody.block <$> Grammar.braced (demanding due n) { inFunction := true }
        else
          FunctionBody.expr <$> Grammar.expression (demanding due n)
      return Expr.function ⟨none, params, body, start.through (← Parser.previous).loc⟩ := by
    intro params start k P
    refine Keeps.expectSymbol.bind fun _ _ => .seen_taking (.checkSymbol (.ite (fun _ => ?_) fun _ => ?_))
    . exact (h.braced _).map.after fun _ _ => .previous .pure
    . exact (h.expression _ _).map.after fun _ _ => .previous .pure
  refine (Keeps.acceptSymbol (.inr (by decide))).bind fun _ _ => .ite (fun _ => ?_) fun _ => ?_
  . exact .bind_taking parameters fun _ _ => Keeps.expectSymbol.bind fun _ _ => .pure_bind (hrest _ _ _ _)
  . exact Keeps.name.bind fun _ _ => .pure_bind (hrest _ _ _ _)

theorem plainAssignment : Keeps s k P true fun due => plainAssignment (demanding due n) := by
  refine h.conditional.bind fun target i => ?_
  refine .tail (a := target) (.look Parser.peek_at ?_) (fun due t j hj => ?_) (.peek ?_)
  . dsimp only
    split
    . exact .pure
    . next op hop =>
      refine .of_advances (.ite (@Advances.advance _ _ _ _ ?_ fun hkind => ?_) .fail_bind)
      . refine .after fun value => ?_
        split <;> infer_instance
      . rw [hkind] at hop
        cases hop
  . rw [Parser.bind_at, Parser.peek_at]
    simp only [Except.bind, hj]
    rfl
  . cases hop : assignOp? (s.get i).kind with
    | none => exact .pure
    | some op =>
      refine .ite (fun _ => .after_advance (fun hend => ?_) ?_) fun _ => .fail_bind
      . rw [hend] at hop
        cases hop
      . refine (h.expression _ _).bind fun value _ => ?_
        cases op <;> exact .pure

theorem assignmentRule [s.KnowsArrows] : Keeps s k P true fun due => assignmentRule (demanding due n) := by
  refine .seen_taking fun e k' hk hok => ?_
  by_cases harrow : Parser.startsArrow s k = true
  . have hsource := fun due => assignmentRule_at (demanding due n) harrow
    obtain ⟨hle, hsize, ws, hws⟩ := h.arrowFunction e k' hk ((hsource never).symm.trans hok)
    refine ⟨hle, hsize, ws, hws.congr hsource fun t _ m l hcopies hend => ?_⟩
    rintro _ ⟨hP, due, rfl⟩
    -- What is read as an arrow function in the copy begins with parameters there.
    have htarget : ∀ due, (Grammar.arrowFunction (demanding due n)).at t m = .ok (e, l) :=
      fun due => hws.writes t m l hcopies hend _ ⟨hP, due, rfl⟩
    obtain ⟨ks, j, hhead, hks, -⟩ := arrowFunction_begins _ _ (demanding_never n ▸ htarget never)
    exact (assignmentRule_at _ (TokenStream.startsArrow_of_head hhead hks)).trans (htarget due)
  . have hsource := fun due => assignmentRule_at (demanding due n) (Bool.eq_false_iff.2 harrow)
    obtain ⟨hle, hsize, ws, hws⟩ := h.plainAssignment e k' hk ((hsource never).symm.trans hok)
    have hlt := Takes.advances (n := 1) e k' hok
    refine ⟨hle, hsize, ws, hws.congr hsource fun t _ m l hcopies hend => ?_⟩
    rintro _ ⟨hP, due, rfl⟩
    have hnone := hcopies.not_startsArrow hws.not_mem hlt hend harrow (demanding_never n ▸ hok)
    exact (assignmentRule_at _ (Bool.eq_false_iff.2 hnone)).trans (hws.writes t m l hcopies hend _ ⟨hP, due, rfl⟩)

end KeepsAt
end ScriptHost
