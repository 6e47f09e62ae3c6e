import ScriptHost.Proofs.Syntax.ReadableExpr

/-!
This module contains that expressions with operators are readable if their operands are: binary and unary
operators, assignments, conditionals, calls and accesses.
-/

namespace ScriptHost

open Grammar

namespace Expr

variable {σ : Style} {loc : Location}

theorem append_cons_append (ks ks' ks'' : List TokenKind) (k : TokenKind)
    : ks ++ k :: ks' ++ ks'' = ks ++ k :: (ks' ++ ks'') := by
  rw [List.append_assoc, List.cons_append]

theorem isAssignable_unplaced (e : Expr) : e.unplaced.isAssignable = e.isAssignable := by
  cases e <;> rfl

theorem isAssignable_of_unplaced_eq {e e' : Expr} (h : e'.unplaced = e.unplaced)
    (he : e.isAssignable)
    : e'.isAssignable := by
  rw [← isAssignable_unplaced, h, isAssignable_unplaced]
  exact he

theorem level_of_isAssignable {e : Expr} (h : e.isAssignable) : 10 ≤ e.level := by
  cases e with
  | name => exact Nat.le_succ 10
  | member => exact Nat.le_refl 10
  | index => exact Nat.le_refl 10
  | _ => cases h

/-! Binary operators. -/

theorem readable_binary {op : BinaryOp} {left right : Expr} (hleft : left.Readable σ)
    (hright : right.Readable σ)
    : (Expr.binary op left right loc).Readable σ where
  balanced := by
    refine (hleft.balanced_enclosed _).append (.cons ?_ ?_ (hright.balanced_enclosed _))
    . cases op <;> exact nofun
    . cases op <;> exact nofun
  begins := (hleft.begins_enclosed _).append _
  plain hlevel := absurd (Nat.le_trans hlevel op.level_bounds.2) (by decide)
  noArrow _ := by
    apply (hleft.noArrow_enclosed op.level_bounds.1).append
    cases op <;> exact nofun
  loose hlevel := absurd (Nat.le_trans op.level_bounds.1 hlevel) (by decide)
  tight _ := by
    intro s p n k ks R hs hk hp hR
    obtain ⟨hlow, hhigh⟩ := op.level_bounds
    have hloop : IsLoop op.level := .inl ⟨hlow, hhigh⟩
    have hsymbol : (TokenKind.symbol op.symbol).Stops (op.level + 1) := by
      intro l hl
      rw [op.continues?_symbol] at hl
      cases hl
      exact Nat.lt_succ_self _
    have hlinks : (Expr.binary op left right loc).links
        = (if left.level = op.level then left.links else 0) + 1 := rfl
    have hneed : p → (Expr.binary op left right loc).links
        + needEnclosed (op.level + 1) right (right.need σ) ≤ n :=
      fun h => Nat.le_trans (Nat.le_max_right _ _) (hp h)
    rw [hlinks] at hneed hR
    rw [Expr.print, append_cons_append]
    apply hleft.leadAt hloop hs hsymbol fun h => Nat.le_trans (Nat.le_max_left _ _) (hp h)
    intro left' hleft'
    rw [loop_binary _ hhigh]
    unfold operators
    apply Reads.peek
    intro t ht
    rw [ht, binaryOp?_tier]
    dsimp only
    apply Reads.advanceSymbol
    apply Reads.nested
    . intro h
      have := hneed h
      omega
    . change Reads s p (operandRule _ (tier op.level) (tiers (op.level + 1)) op t.loc left') _ _
      unfold operandRule
      rw [Nat.sub_sub, ← readerOf_binary _ (by omega) (by omega)]
      have hread := hright.readAt (m := op.level + 1) (by omega) (by omega)
      apply (hread hs hk fun h => Nat.le_sub_of_add_le' (hneed h)).bind
      rintro right' _ ⟨hright', rfl⟩
      rw [← loop_binary _ hhigh]
      apply hR
      rw [Expr.unplaced, Expr.unplaced, hleft', hright']

/-! Unary operators. -/

theorem readable_unary_before {op : UnaryOp} {operand : Expr} (hop : op.isPostfix = false)
    (htarget : op.isUpdate → operand.isAssignable) (h : operand.Readable σ)
    : (Expr.unary op operand loc).Readable σ := by
  have hlevel : (Expr.unary op operand loc).level = 8 := by
    rw [Expr.level, hop, if_neg nofun]
  have hprint : (Expr.unary op operand loc).print σ
      = op.kind :: enclosed 8 operand (operand.print σ) := by
    rw [Expr.print, hop, if_neg nofun]
  have hneed : (Expr.unary op operand loc).need σ = needEnclosed 8 operand (operand.need σ) + 1 := by
    rw [Expr.need, hop, if_neg nofun]
  refine ⟨?_, ?_, ?_, ?_, ?_, ?_⟩
  . rw [hprint]
    refine .cons ?_ ?_ (h.balanced_enclosed 8)
    . cases op <;> exact nofun
    . cases op <;> exact nofun
  . refine ⟨_, _, hprint, ?_⟩
    cases op <;> rfl
  . rw [hlevel]
    exact fun hle => absurd hle (by decide)
  . intro _
    rw [hprint]
    refine .other ?_ ?_
    . cases op <;> exact nofun
    . cases op <;> exact nofun
  . rw [hlevel]
    exact fun hle => absurd hle (by decide)
  . intro _ s p n k ks R hs hk hp hR
    rw [hlevel] at hk hR
    rw [hprint, hlevel, List.cons_append]
    rw [hneed] at hp
    change Reads s p (unaryRule (ofLevels n)) _ _
    unfold unaryRule
    apply Reads.peek
    intro t ht
    have hunary : unaryOp? t.kind = some op := by
      rw [ht]
      cases op <;> first | rfl | cases hop
    rw [hunary]
    dsimp only
    apply Reads.advance (by cases op <;> exact nofun)
    have hread := h.readAt (m := 8) (by decide) (by decide)
    have hoperand : Reads s p (nested (ofLevels n) fun g => g.unary)
        (enclosed 8 operand (operand.print σ) ++ k :: ks) fun e' ks' =>
          e'.unplaced = operand.unplaced ∧ ks' = k :: ks := by
      apply Reads.nested fun h => Nat.lt_of_lt_of_le (Nat.succ_pos _) (hp h)
      exact hread hs hk.unary fun h => Nat.le_sub_of_add_le (hp h)
    apply hoperand.bind
    rintro operand' _ ⟨hoperand', rfl⟩
    have hassignable : (op.isUpdate && !operand'.isAssignable) = false := by
      cases hupdate : op.isUpdate with
      | false => rfl
      | true => simp [isAssignable_of_unplaced_eq hoperand' (htarget hupdate)]
    rw [hassignable, if_neg nofun]
    apply hR
    rw [Expr.unplaced, Expr.unplaced, hoperand']

theorem readable_unary_behind {op : UnaryOp} {operand : Expr} (hop : op.isPostfix)
    (htarget : operand.isAssignable) (h : operand.Readable σ)
    : (Expr.unary op operand loc).Readable σ := by
  have hlevel : (Expr.unary op operand loc).level = 9 := by
    rw [Expr.level, if_pos hop]
  have hprint : (Expr.unary op operand loc).print σ = enclosed 10 operand (operand.print σ) ++ [op.kind] := by
    rw [Expr.print, if_pos hop]
  have hneed : (Expr.unary op operand loc).need σ = needEnclosed 10 operand (operand.need σ) := by
    rw [Expr.need, if_pos hop]
  refine ⟨?_, ?_, ?_, ?_, ?_, ?_⟩
  . rw [hprint]
    refine (h.balanced_enclosed 10).append (.single ?_ ?_)
    . cases op <;> exact nofun
    . cases op <;> exact nofun
  . rw [hprint]
    exact (h.begins_enclosed 10).append _
  . intro _
    rw [hprint]
    exact (h.plain_enclosed (by decide)).append _
  . intro _
    rw [hprint]
    apply (h.noArrow_enclosed (by decide)).append
    cases op <;> exact nofun
  . rw [hlevel]
    exact fun hle => absurd hle (by decide)
  . intro _ s p n k ks R hs hk hp hR
    rw [hlevel] at hk hR
    rw [hprint, hlevel, append_cons_append]
    rw [hneed] at hp
    have hupdate : op.kind.continues? = some 9 := by
      cases op <;> first | rfl | cases hop
    have hstops : op.kind.Stops 10 := by
      intro l hl
      rw [hupdate] at hl
      cases hl
      exact Nat.lt_succ_self _
    have hend : op.kind ≠ .endOfInput := by
      intro hend
      rw [hend] at hupdate
      cases hupdate
    change Reads s p (updated (ofLevels n)) _ _
    unfold updated
    rw [← bind_assoc]
    apply (h.readAt (m := 10) (by decide) (by decide) hs hstops hp).bind
    rintro operand' _ ⟨hoperand', rfl⟩
    apply Reads.lineBreakBefore hs.oneLine
    rw [if_neg nofun]
    apply Reads.peek
    intro t ht
    rw [ht]
    have hread : ∀ op', op' = op → Reads s p (do
        unless operand'.isAssignable do
          Parser.fail .invalidPostfixTarget operand'.loc
        Parser.advance
        return .unary op' operand' t.loc) (op.kind :: ([] ++ k :: ks)) R := by
      rintro _ rfl
      rw [isAssignable_of_unplaced_eq hoperand' htarget]
      apply Reads.advance hend
      apply hR
      rw [Expr.unplaced, Expr.unplaced, hoperand']
    cases op <;> first | exact hread _ rfl | cases hop

theorem readable_unary {op : UnaryOp} {operand : Expr} (htarget : op.isUpdate → operand.isAssignable)
    (h : operand.Readable σ)
    : (Expr.unary op operand loc).Readable σ := by
  cases hop : op.isPostfix with
  | false => exact readable_unary_before hop htarget h
  | true =>
    apply readable_unary_behind hop (htarget ?_) h
    cases op <;> first | rfl | cases hop

/-! Assignments and conditionals. -/

theorem readable_loose {e : Expr} (hlevel : e.level ≤ 1) (hbalanced : Balanced (e.print σ))
    (hbegins : Begins (·.startsExpr) (e.print σ)) (hread : e.ReadAt 0 (e.print σ) (e.need σ))
    : e.Readable σ where
  balanced := hbalanced
  begins := hbegins
  plain htight := absurd (Nat.le_trans htight hlevel) (by decide)
  noArrow htight := absurd (Nat.le_trans htight hlevel) (by decide)
  loose _ := hread
  tight htight := absurd (Nat.le_trans htight hlevel) (by decide)

theorem continues?_of_assignOp? {k : TokenKind} {op? : Option BinaryOp} (hop : assignOp? k = some op?)
    : k.continues? = some 0 := by
  unfold assignOp? at hop
  split at hop
  case h_7 => cases hop
  all_goals rfl

theorem reads_assignment {target value : Expr} {symbol : Symbol} {op? : Option BinaryOp}
    (hop : assignOp? (.symbol symbol) = some op?) (hassignable : target.isAssignable)
    (htarget : target.Readable σ) (hvalue : value.Readable σ) {s : TokenStream} {p : Prop} {n : Nat}
    {k : TokenKind} {ks : List TokenKind} (hs : s.Line) (hk : k.Stops 0)
    (hp : p → max (needEnclosed 1 target (target.need σ)) (value.need σ + 1) ≤ n)
    : Reads s p (assignmentRule (ofLevels n))
        (enclosed 1 target (target.print σ) ++ .symbol symbol :: value.print σ ++ k :: ks)
        fun e' ks' => ∃ target' value' loc,
          e' = op?.elim (.assign target' value' loc) (fun op => .compound op target' value' loc) ∧
            target'.unplaced = target.unplaced ∧ value'.unplaced = value.unplaced ∧ ks' = k :: ks := by
  have hlevel : 2 ≤ target.level := Nat.le_trans (by decide) (level_of_isAssignable hassignable)
  have hclosed : enclosed 1 target (target.print σ) = enclosed 2 target (target.print σ) := by
    unfold enclosed
    rw [if_neg (by omega), if_neg (by omega)]
  have hneed : needEnclosed 1 target (target.need σ) = needEnclosed 2 target (target.need σ) := by
    unfold needEnclosed
    rw [if_neg (by omega), if_neg (by omega)]
  have hstops : (TokenKind.symbol symbol).Stops 2 := by
    intro l hl
    rw [continues?_of_assignOp? hop] at hl
    cases hl
    decide
  have hread := htarget.readAt (Nat.le_refl 2) (by decide)
  have hquestion : TokenKind.symbol symbol ≠ .symbol .question := by
    intro hquestion
    rw [hquestion] at hop
    cases hop
  rw [hneed] at hp
  rw [hclosed, append_cons_append]
  unfold assignmentRule
  apply Reads.atArrowFunction_none hs
  . exact (htarget.noArrow_enclosed (Nat.le_refl 2)).append (head?_ne_arrow hstops (by decide) _)
  rw [if_neg nofun]
  apply (hread.reads_conditional hs hstops (fun h => Nat.le_trans (Nat.le_max_left _ _) (hp h))
    hquestion).bind
  rintro target' _ ⟨htarget', rfl⟩
  apply Reads.peek
  intro t ht
  rw [ht, hop]
  dsimp only
  rw [isAssignable_of_unplaced_eq htarget' hassignable, if_pos rfl]
  apply Reads.advanceSymbol
  apply (hvalue.readAt_zero.reads_expression hs hk fun h => Nat.le_trans (Nat.le_max_right _ _) (hp h)).bind
  rintro value' _ ⟨hvalue', rfl⟩
  cases op? with
  | none => exact .pure ⟨target', value', t.loc, rfl, htarget', hvalue', rfl⟩
  | some op => exact .pure ⟨target', value', t.loc, rfl, htarget', hvalue', rfl⟩

theorem readable_assign {target value : Expr} (hassignable : target.isAssignable)
    (htarget : target.Readable σ) (hvalue : value.Readable σ)
    : (Expr.assign target value loc).Readable σ := by
  have hassign : assignOp? (.symbol .assign) = some none := rfl
  apply readable_loose (by exact Nat.zero_le 1)
  . exact (htarget.balanced_enclosed 1).append (.cons nofun nofun hvalue.balanced)
  . exact (htarget.begins_enclosed 1).append _
  . intro s p n k ks hs hk hp
    apply (reads_assignment hassign hassignable htarget hvalue hs hk hp).mono
    rintro e' _ ⟨target', value', loc', rfl, htarget', hvalue', rfl⟩
    refine ⟨?_, rfl⟩
    rw [Option.elim, Expr.unplaced, Expr.unplaced, htarget', hvalue']

theorem readable_compound {op : BinaryOp} {target value : Expr} (hop : op.isArithmetic)
    (hassignable : target.isAssignable) (htarget : target.Readable σ) (hvalue : value.Readable σ)
    : (Expr.compound op target value loc).Readable σ := by
  have hassign : assignOp? (.symbol op.assignSymbol) = some (some op) := by
    cases op <;> first | rfl | cases hop
  apply readable_loose (by exact Nat.zero_le 1)
  . refine (htarget.balanced_enclosed 1).append (.cons ?_ ?_ hvalue.balanced)
    . cases op <;> exact nofun
    . cases op <;> exact nofun
  . exact (htarget.begins_enclosed 1).append _
  . intro s p n k ks hs hk hp
    apply (reads_assignment hassign hassignable htarget hvalue hs hk hp).mono
    rintro e' _ ⟨target', value', loc', rfl, htarget', hvalue', rfl⟩
    refine ⟨?_, rfl⟩
    rw [Option.elim, Expr.unplaced, Expr.unplaced, htarget', hvalue']

theorem readable_conditional {condition whenTrue whenFalse : Expr} (hcondition : condition.Readable σ)
    (htrue : whenTrue.Readable σ) (hfalse : whenFalse.Readable σ)
    : (Expr.conditional condition whenTrue whenFalse loc).Readable σ := by
  apply readable_loose (by exact Nat.le_refl 1)
  . have hbranches := htrue.balanced.append (.cons (k := .symbol .colon) nofun nofun hfalse.balanced)
    exact (hcondition.balanced_enclosed 2).append (.cons nofun nofun hbranches)
  . exact (hcondition.begins_enclosed 2).append _
  . intro s p n k ks hs hk hp
    have hquestion : (TokenKind.symbol .question).Stops 2 := by
      intro l hl
      cases hl
      decide
    have hneed : p → max (whenTrue.need σ + 1) (whenFalse.need σ + 1) ≤ n :=
      fun h => Nat.le_trans (Nat.le_max_right _ _) (hp h)
    rw [Expr.print, append_cons_append, append_cons_append]
    change Reads s p (assignmentRule (ofLevels n)) _ _
    unfold assignmentRule
    apply Reads.atArrowFunction_none hs
    . exact (hcondition.noArrow_enclosed (Nat.le_refl 2)).append (head?_ne_arrow hquestion (by decide) _)
    rw [if_neg nofun]
    unfold Grammar.conditional
    rw [bind_assoc]
    apply (hcondition.readAt (Nat.le_refl 2) (by decide) hs hquestion
      fun h => Nat.le_trans (Nat.le_max_left _ _) (hp h)).bind
    rintro condition' _ ⟨hcondition', rfl⟩
    rw [bind_assoc]
    apply Reads.location
    intro loc'
    rw [bind_assoc]
    apply Reads.acceptSymbol
    rw [if_pos rfl, bind_assoc]
    apply (htrue.readAt_zero.reads_expression hs (stops_zero rfl)
      fun h => Nat.le_trans (Nat.le_max_left _ _) (hneed h)).bind
    rintro whenTrue' _ ⟨htrue', rfl⟩
    rw [bind_assoc]
    apply Reads.expectSymbol
    rw [bind_assoc]
    apply (hfalse.readAt_zero.reads_expression hs hk
      fun h => Nat.le_trans (Nat.le_max_right _ _) (hneed h)).bind
    rintro whenFalse' _ ⟨hfalse', rfl⟩
    rw [pure_bind]
    apply Reads.peek
    intro t ht
    rw [ht, assignOp?_of_stops hk]
    refine .pure ⟨?_, rfl⟩
    rw [Expr.unplaced, Expr.unplaced, hcondition', htrue', hfalse']

/-! Calls and accesses. -/

theorem readable_access {object e : Expr} {access : List TokenKind} {inner : Nat}
    (hlevel : e.level = 10) (hprint : e.print σ = enclosed 10 object (object.print σ) ++ access)
    (hlinks : e.links = (if object.level = 10 then object.links else 0) + 1)
    (hneed : e.need σ = max (needEnclosed 10 object (object.need σ)) (e.links + inner))
    (hbalanced : Balanced access)
    (hopens : Begins (· ∈ [.symbol .leftParen, .symbol .dot, .symbol .leftBracket]) access)
    (hrule : ∀ ⦃s : TokenStream⦄ ⦃p : Prop⦄ ⦃n : Nat⦄ ⦃ks : List TokenKind⦄
      ⦃R : Expr → List TokenKind → Prop⦄ ⦃object' : Expr⦄, s.Line → (p → inner ≤ n) →
      object'.unplaced = object.unplaced →
      (∀ e', e'.unplaced = e.unplaced → Reads s p (accesses (ofLevels n) e') ks R) →
      Reads s p (accessRule (ofLevels n) object') (access ++ ks) R)
    (hobject : object.Readable σ)
    : e.Readable σ := by
  obtain ⟨first, rest, rfl, hfirst⟩ := hopens
  have hlevel' : ¬ e.level ≤ 1 := by omega
  refine ⟨?_, ?_, ?_, ?_, fun hloose => absurd hloose hlevel', ?_⟩
  . rw [hprint]
    exact (hobject.balanced_enclosed 10).append hbalanced
  . rw [hprint]
    exact (hobject.begins_enclosed 10).append _
  . intro _
    rw [hprint]
    exact (hobject.plain_enclosed (by decide)).append _
  . intro _
    rw [hprint]
    apply (hobject.noArrow_enclosed (by decide)).append
    rintro ⟨⟩
    simp at hfirst
  . intro _ s p n k ks R hs hk hp hR
    rw [hlevel] at hk hR
    rw [hneed] at hp
    rw [hprint, hlevel, List.append_assoc, List.cons_append]
    have hstops : first.Stops 11 := by
      intro l hl
      have hten : first.continues? = some 10 := by
        simp only [List.mem_cons, List.not_mem_nil, or_false] at hfirst
        rcases hfirst with rfl | rfl | rfl <;> rfl
      rw [hten] at hl
      cases hl
      decide
    have hneed' : p → e.links + inner ≤ n := fun h => Nat.le_trans (Nat.le_max_right _ _) (hp h)
    rw [hlinks] at hneed' hR
    apply hobject.leadAt (.inr rfl) hs hstops fun h => Nat.le_trans (Nat.le_max_left _ _) (hp h)
    intro object' hobject'
    have haccess : Reads s p
        (nested (ofLevels (n - if object.level = 10 then object.links else 0))
          fun g => g.access object')
        (first :: rest ++ k :: ks) R := by
      apply Reads.nested
      . intro h
        have := hneed' h
        omega
      . rw [Nat.sub_sub]
        exact hrule hs (fun h => Nat.le_sub_of_add_le' (hneed' h)) hobject' hR
    change Reads s p (accesses _ object') _ _
    unfold accesses
    apply Reads.peek
    intro t ht
    rw [ht]
    simp only [List.mem_cons, List.not_mem_nil, or_false] at hfirst
    rcases hfirst with rfl | rfl | rfl <;> exact haccess

theorem readable_call {callee : Expr} {args : List Expr} (hcallee : callee.Readable σ)
    (hargs : ∀ e ∈ args, e.Readable σ)
    : (Expr.call callee args loc).Readable σ := by
  have hbalanced := (balanced_printEach hargs).parens
  refine readable_access rfl rfl rfl rfl hbalanced ⟨_, _, rfl, by simp⟩ ?_ hcallee
  intro s p n ks R callee' hs hp hcallee' hR
  unfold accessRule
  rw [parens_append]
  apply Reads.peek
  intro t ht
  apply Reads.advanceSymbol
  rw [ht]
  dsimp only
  apply (reads_expressions hargs hs hp rfl rfl (by decide)).bind
  rintro args' _ ⟨hargs', rfl⟩
  apply Reads.expectSymbol
  apply hR
  rw [Expr.unplaced, Expr.unplaced, hcallee', hargs']

theorem propertyKind_ne_symbol (property : String) (symbol : Symbol)
    : propertyKind property ≠ .symbol symbol := by
  unfold propertyKind
  split <;> exact nofun

theorem reads_propertyName {s : TokenStream} {p : Prop} {ks : List TokenKind} {property : String}
    {f : String → Parser Expr} {R : Expr → List TokenKind → Prop} (hf : Reads s p (f property) ks R)
    : Reads s p (Parser.propertyName >>= f) (propertyKind property :: ks) R := by
  unfold Parser.propertyName
  rw [bind_assoc]
  apply Reads.peek
  intro t ht
  rw [ht]
  unfold propertyKind
  cases hword : Keyword.ofText? property with
  | none =>
    dsimp only
    rw [bind_assoc]
    apply Reads.advance (by exact nofun)
    exact hf
  | some word =>
    dsimp only
    rw [bind_assoc]
    apply Reads.advanceKeyword
    have htext : word.text = property := by
      simpa using List.find?_some hword
    rw [htext]
    exact hf

theorem readable_member {object : Expr} {property : String} (hobject : object.Readable σ)
    : (Expr.member object property loc).Readable σ := by
  have hbalanced : Balanced [.symbol .dot, propertyKind property] :=
    .cons nofun nofun (.single (propertyKind_ne_symbol _ _) (propertyKind_ne_symbol _ _))
  have hneed : (Expr.member object property loc).need σ
      = max (needEnclosed 10 object (object.need σ)) ((Expr.member object property loc).links + 0) := rfl
  refine readable_access rfl rfl rfl hneed hbalanced ⟨_, _, rfl, by simp⟩ ?_ hobject
  intro s p n ks R object' hs hp hobject' hR
  unfold accessRule
  apply Reads.peek
  intro t ht
  apply Reads.advanceSymbol
  rw [ht]
  dsimp only
  apply Reads.location
  intro loc'
  apply reads_propertyName
  apply hR
  rw [Expr.unplaced, Expr.unplaced, hobject']

theorem readable_index {object key : Expr} (hobject : object.Readable σ) (hkey : key.Readable σ)
    : (Expr.index object key loc).Readable σ := by
  have hbalanced := hkey.balanced.brackets
  refine readable_access rfl rfl rfl rfl hbalanced ⟨_, _, rfl, by simp⟩ ?_ hobject
  intro s p n ks R object' hs hp hobject' hR
  unfold accessRule
  rw [brackets_append]
  apply Reads.peek
  intro t ht
  apply Reads.advanceSymbol
  rw [ht]
  dsimp only
  apply (hkey.readAt_zero.reads_expression hs (stops_zero rfl) hp).bind
  rintro key' _ ⟨hkey', rfl⟩
  apply Reads.expectSymbol
  apply Reads.previous
  intro last
  apply hR
  rw [Expr.unplaced, Expr.unplaced, hobject', hkey']

end Expr
end ScriptHost
