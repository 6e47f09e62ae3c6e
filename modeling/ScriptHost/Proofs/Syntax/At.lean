import ScriptHost.Proofs.Syntax.Reading

/-!
This module contains what each way to look at a token or to take it does at a position.
-/

namespace ScriptHost

theorem TokenStream.get_eq_getElem {s : TokenStream} {i : Nat} (hi : i < s.tokens.size) : s.get i = s.tokens[i] := by
  unfold TokenStream.get
  rw [Array.getD_eq_getD_getElem?, Array.getElem?_eq_getElem hi]
  rfl

theorem TokenStream.get_of_size_le {s : TokenStream} {i : Nat} (hi : s.tokens.size ≤ i)
    : s.get i = ⟨.endOfInput, {}⟩ := by
  unfold get
  rw [Array.getD_eq_getD_getElem?, Array.getElem?_eq_none hi]
  rfl

theorem TokenStream.lt_size_of_kind (s : TokenStream) {i : Nat} (hkind : (s.get i).kind ≠ .endOfInput)
    : i < s.tokens.size := by
  apply Nat.lt_of_not_le
  intro hle
  rw [get_of_size_le hle] at hkind
  exact hkind rfl

namespace Parser

variable {α β : Type} {s : TokenStream} {i : Nat}

theorem bind_at (x : Parser α) (f : α → Parser β)
    : (x >>= f).at s i = (x.at s i).bind fun r => (f r.1).at s r.2 :=
  rfl

theorem pure_at (a : α) : (pure a : Parser α).at s i = .ok (a, i) :=
  rfl

theorem peek_at : peek.at s i = .ok (s.get i, i) :=
  rfl

theorem previous_at : previous.at s i = .ok (s.get (i - 1), i) :=
  rfl

theorem location_at : location.at s i = .ok ((s.get i).loc, i) :=
  rfl

theorem unexpected_at : (unexpected : Parser α).at s i = .error ⟨.unexpected (s.get i).kind, (s.get i).loc⟩ :=
  rfl

theorem check_at (kind : TokenKind) : (check kind).at s i = .ok (decide ((s.get i).kind = kind), i) :=
  rfl

theorem atEnd_at : atEnd.at s i = .ok (decide ((s.get i).kind = .endOfInput), i) :=
  rfl

theorem lineBreakBefore_at
    : lineBreakBefore.at s i = .ok (0 < i && (s.get (i - 1)).loc.line < (s.get i).loc.line, i) :=
  rfl

theorem remaining_at : remaining.at s i = .ok (s.tokens.size - i + 1, i) :=
  rfl

theorem advance_at
    : advance.at s i = .ok ((), if (s.get i).kind = .endOfInput then i else i + 1) := by
  unfold advance
  rw [bind_at, atEnd_at]
  by_cases h : (s.get i).kind = .endOfInput
  . simp only [h, decide_true, if_true, Except.bind]
    rfl
  . simp only [h, decide_false, if_false, Except.bind]
    rfl

theorem accept_at (kind : TokenKind)
    : (accept kind).at s i =
      if (s.get i).kind = kind then .ok (true, if kind = .endOfInput then i else i + 1) else .ok (false, i) := by
  unfold accept
  rw [bind_at, check_at]
  by_cases h : (s.get i).kind = kind
  . simp only [h, decide_true, if_true, Except.bind]
    rw [bind_at, advance_at, h]
    rfl
  . simp only [h, decide_false, if_false, Except.bind]
    rfl

theorem acceptSymbol_at (symbol : Symbol)
    : (acceptSymbol symbol).at s i = if (s.get i).kind = .symbol symbol then .ok (true, i + 1) else .ok (false, i) :=
  accept_at _

theorem expect_at (kind : TokenKind)
    : (expect kind).at s i =
      if (s.get i).kind = kind then .ok ((), if kind = .endOfInput then i else i + 1)
      else .error ⟨.unexpected (s.get i).kind, (s.get i).loc⟩ := by
  unfold expect
  rw [bind_at, accept_at]
  by_cases h : (s.get i).kind = kind
  . simp only [h, if_true]
    rfl
  . simp only [h, if_false]
    rfl

theorem expectSymbol_at (symbol : Symbol)
    : (expectSymbol symbol).at s i =
      if (s.get i).kind = .symbol symbol then .ok ((), i + 1)
      else .error ⟨.unexpected (s.get i).kind, (s.get i).loc⟩ :=
  expect_at _

theorem expectKeyword_at (word : Keyword)
    : (expectKeyword word).at s i =
      if (s.get i).kind = .keyword word then .ok ((), i + 1)
      else .error ⟨.unexpected (s.get i).kind, (s.get i).loc⟩ :=
  expect_at _

theorem name_at {text : String} (h : (s.get i).kind = .name text) : name.at s i = .ok (text, i + 1) := by
  unfold name
  rw [bind_at, peek_at]
  simp only [Except.bind, h]
  rw [bind_at, advance_at, h]
  rfl

theorem name_at_other (h : ∀ text, (s.get i).kind ≠ .name text)
    : name.at s i = .error ⟨.unexpected (s.get i).kind, (s.get i).loc⟩ := by
  unfold name
  rw [bind_at, peek_at]
  dsimp only [Except.bind]
  split
  . next text hk => exact absurd hk (h text)
  . exact unexpected_at

/-- The text that a property has if its name is of this kind. -/
def propertyText? : TokenKind → Option String
  | .name text => some text
  | .keyword word => some word.text
  | _ => none

theorem propertyName_at {text : String} (h : propertyText? (s.get i).kind = some text)
    : propertyName.at s i = .ok (text, i + 1) := by
  unfold propertyName
  rw [bind_at, peek_at]
  simp only [Except.bind]
  unfold propertyText? at h
  split
  . next name hk =>
    rw [hk] at h
    cases h
    rw [bind_at, advance_at, hk]
    rfl
  . next word hk =>
    rw [hk] at h
    cases h
    rw [bind_at, advance_at, hk]
    rfl
  . next hname hword =>
    split at h
    . next hk => exact absurd hk (hname _)
    . next hk => exact absurd hk (hword _)
    . cases h

theorem propertyName_at_other (h : propertyText? (s.get i).kind = none)
    : propertyName.at s i = .error ⟨.unexpected (s.get i).kind, (s.get i).loc⟩ := by
  unfold propertyName
  rw [bind_at, peek_at]
  simp only [Except.bind]
  split
  . next hk =>
    rw [hk] at h
    cases h
  . next hk =>
    rw [hk] at h
    cases h
  . exact unexpected_at

theorem semicolon_at
    : semicolon.at s i =
      if (s.get i).kind = .symbol .semicolon then .ok ((), i + 1)
      else if (s.get i).kind = .symbol .rightBrace ∨ (s.get i).kind = .endOfInput ∨
          0 < i ∧ (s.get (i - 1)).loc.line < (s.get i).loc.line then .ok ((), i)
      else .error ⟨.unexpected (s.get i).kind, (s.get i).loc⟩ := by
  unfold semicolon
  rw [bind_at, acceptSymbol_at]
  by_cases hsemicolon : (s.get i).kind = .symbol .semicolon
  . simp only [hsemicolon, if_true]
    rfl
  . simp only [hsemicolon, if_false]
    show ((do
      unless (← checkSymbol .rightBrace) || (← atEnd) || (← lineBreakBefore) do
        unexpected) : Parser Unit).at s i = _
    simp only [bind_at, checkSymbol, check_at, atEnd_at, lineBreakBefore_at, Except.bind]
    rw [show (decide ((s.get i).kind = .symbol .rightBrace) || decide ((s.get i).kind = .endOfInput) ||
        (decide (0 < i) && decide ((s.get (i - 1)).loc.line < (s.get i).loc.line))) = decide
        ((s.get i).kind = .symbol .rightBrace ∨ (s.get i).kind = .endOfInput ∨
          0 < i ∧ (s.get (i - 1)).loc.line < (s.get i).loc.line)
      by simp only [Bool.decide_or, Bool.decide_and, Bool.or_assoc]]
    by_cases hmissing : (s.get i).kind = .symbol .rightBrace ∨ (s.get i).kind = .endOfInput ∨
        0 < i ∧ (s.get (i - 1)).loc.line < (s.get i).loc.line
    . rw [if_pos hmissing, decide_eq_true hmissing]
      rfl
    . rw [if_neg hmissing, decide_eq_false hmissing]
      rfl

/-- Whether an arrow function starts at a position. -/
def startsArrow (s : TokenStream) (i : Nat) : Bool :=
  match (s.get i).kind with
  | .name _ => (s.get (i + 1)).kind = .symbol .arrow
  | .symbol .leftParen => s.arrows.contains i
  | _ => false

theorem atArrowFunction_at : Grammar.atArrowFunction.at s i = .ok (startsArrow s i, i) := by
  unfold Grammar.atArrowFunction startsArrow
  rw [bind_at, peek_at]
  dsimp only [Except.bind]
  generalize (s.get i).kind = kind
  cases kind with
  | symbol symbol => cases symbol <;> rfl
  | _ => rfl

end Parser
end ScriptHost
