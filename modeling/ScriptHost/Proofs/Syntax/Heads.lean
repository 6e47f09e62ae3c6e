import ScriptHost.Proofs.Syntax.Mirrors

/-!
This module contains what expressions begin with where an arrow function could start, and that a stretch of
tokens that stands in two scripts has the same arrow functions in both.
-/

namespace ScriptHost

open Grammar

/-- What the reader takes from a position on begins with kinds of this form. -/
def StartsWith {α : Type} (s : TokenStream) (i : Nat) (P : List TokenKind → Prop) (x : Parser α) : Prop :=
  ∀ a j, x.at s i = .ok (a, j) → ∃ ks m, P ks ∧ s.Between i m ks ∧ m ≤ j

namespace StartsWith

variable {α β : Type} {s : TokenStream} {i : Nat} {P : List TokenKind → Prop} {x : Parser α}

theorem bind {f : α → Parser β} (hx : StartsWith s i P x) (hf : ∀ a, Takes 0 (f a))
    : StartsWith s i P (x >>= f) := by
  intro b j hok
  obtain ⟨a, k, ha, hb⟩ := Parser.bind_eq_ok hok
  obtain ⟨ks, m, hP, hks, hm⟩ := hx a k ha
  exact ⟨ks, m, hP, hks, Nat.le_trans hm ((hf a).advances b j hb)⟩

theorem look {a : α} {f : α → Parser β} (hx : x.at s i = .ok (a, i)) (hf : StartsWith s i P (f a))
    : StartsWith s i P (x >>= f) := by
  intro b j hok
  rw [Parser.bind_at, hx] at hok
  exact hf b j hok

end StartsWith

/-- The rest of a list in parentheses, of which the first one has been taken. -/
theorem TokenStream.between_parens {s : TokenStream} {i m : Nat} {ks : List TokenKind}
    (hleft : (s.get i).kind = .symbol .leftParen) (hks : s.Between (i + 1) m ks)
    (hright : (s.get m).kind = .symbol .rightParen)
    : s.Between i (m + 1) (parens ks) := by
  have hfirst := between_succ (s := s) (i := i) (by simp [hleft])
  have hlast := between_succ (s := s) (i := m) (by simp [hright])
  rw [hleft] at hfirst
  rw [hright] at hlast
  exact hfirst.append (hks.append hlast)

namespace Grammar

/-- A balanced list in parentheses. -/
def InParens (ks : List TokenKind) : Prop :=
  ∃ inner, Balanced inner ∧ ks = parens inner

/-- A name or a balanced list in parentheses, and the arrow. -/
def ArrowHead (ks : List TokenKind) : Prop :=
  (∃ name, ks = [.name name, .symbol .arrow]) ∨ ∃ inner, Balanced inner ∧ ks = parens inner ++ [.symbol .arrow]

variable {s : TokenStream} {i n : Nat}

theorem primary_begins (hkind : (s.get i).kind = .symbol .leftParen)
    : StartsWith s i InParens (primary (ofLevels n)) := by
  unfold primary
  refine .look Parser.peek_at ?_
  have hliteral : literal? (s.get i) = none := by simp [literal?, hkind]
  rw [hliteral, hkind]
  intro e j hok
  obtain ⟨_, i', hadvance, hok⟩ := Parser.bind_eq_ok hok
  have hne : (s.get i).kind ≠ .endOfInput := by simp [hkind]
  rw [Parser.advance_at, if_neg hne] at hadvance
  cases hadvance
  obtain ⟨e', m, hexpression, hok⟩ := Parser.bind_eq_ok hok
  obtain ⟨ks, hks, hbalanced⟩ := Closes.balances (d := 0) _ _ hexpression
  rw [Parser.bind_at, Parser.expectSymbol_at] at hok
  split at hok
  . next hright =>
    cases hok
    exact ⟨_, _, ⟨ks, hbalanced, rfl⟩, TokenStream.between_parens hkind hks hright, Nat.le_refl _⟩
  . cases hok

theorem conditional_begins (hkind : (s.get i).kind = .symbol .leftParen)
    : StartsWith s i InParens (conditional (ofLevels n)) := by
  have hupdated : StartsWith s i InParens (updated (ofLevels n)) := by
    unfold updated
    dsimp only
    refine .bind (primary_begins hkind) fun e => .after fun operand => .after fun newline => .ite ?_
      (.after fun token => ?_)
    . infer_instance
    . split <;> infer_instance
  have hbinary : ∀ levels, StartsWith s i InParens (binary (ofLevels n) levels) := by
    intro levels
    induction levels with
    | nil =>
      refine .look Parser.peek_at ?_
      rw [hkind]
      exact hupdated
    | cons level tighter ih => exact .bind ih fun left => inferInstance
  exact .bind (hbinary _) fun e => inferInstance

/-- What follows the parameters begins with the arrow. -/
theorem between_arrow {α : Type} {f : Unit → Parser α} {a : α} {j : Nat} (hf : Takes 0 (f ()))
    (hok : (Parser.expectSymbol .arrow >>= f).at s i = .ok (a, j))
    : s.Between i (i + 1) [.symbol .arrow] ∧ i + 1 ≤ j := by
  rw [Parser.bind_at, Parser.expectSymbol_at] at hok
  split at hok
  . next hkind =>
    refine ⟨?_, hf.advances a j hok⟩
    rw [← hkind]
    exact TokenStream.between_succ (by simp [hkind])
  . cases hok

theorem arrowFunction_begins : StartsWith s i ArrowHead (arrowFunction (ofLevels n)) := by
  intro e j hok
  unfold arrowFunction at hok
  dsimp only at hok
  obtain ⟨start, _, hstart, hok⟩ := Parser.bind_eq_ok hok
  cases hstart
  obtain ⟨found, k, hfound, hok⟩ := Parser.bind_eq_ok hok
  rw [Parser.acceptSymbol_at] at hfound
  split at hfound
  . next hleft =>
    cases hfound
    rw [if_pos rfl] at hok
    obtain ⟨params, m, hparams, hok⟩ := Parser.bind_eq_ok hok
    obtain ⟨ks, hks, hbalanced⟩ := Closes.balances (d := 0) _ _ hparams
    obtain ⟨_, m', hright, hok⟩ := Parser.bind_eq_ok hok
    rw [Parser.expectSymbol_at] at hright
    split at hright
    . next hkind =>
      cases hright
      rw [pure_bind] at hok
      obtain ⟨harrow, hle⟩ := between_arrow inferInstance hok
      exact ⟨_, _, .inr ⟨ks, hbalanced, rfl⟩, (TokenStream.between_parens hleft hks hkind).append harrow, hle⟩
    . cases hright
  . cases hfound
    rw [if_neg nofun] at hok
    obtain ⟨text, m, hname, hok⟩ := Parser.bind_eq_ok hok
    by_cases hkind : ∃ text, (s.get i).kind = .name text
    . obtain ⟨text, hkind⟩ := hkind
      rw [Parser.name_at hkind] at hname
      cases hname
      rw [pure_bind] at hok
      obtain ⟨harrow, hle⟩ := between_arrow inferInstance hok
      have hfirst := TokenStream.between_succ (s := s) (i := i) (by simp [hkind])
      rw [hkind] at hfirst
      exact ⟨_, _, .inl ⟨text, rfl⟩, hfirst.append harrow, hle⟩
    . rw [Parser.name_at_other (not_exists.1 hkind)] at hname
      cases hname

theorem assignmentRule_begins_arrow (harrow : Parser.startsArrow s i = true)
    : StartsWith s i ArrowHead (assignmentRule (ofLevels n)) := by
  refine .look Parser.atArrowFunction_at ?_
  rw [if_pos harrow]
  exact arrowFunction_begins

theorem assignmentRule_begins (harrow : ¬ Parser.startsArrow s i = true)
    (hkind : (s.get i).kind = .symbol .leftParen)
    : StartsWith s i InParens (assignmentRule (ofLevels n)) := by
  refine .look Parser.atArrowFunction_at ?_
  rw [if_neg harrow]
  refine .bind (conditional_begins hkind) fun target => .after fun token => ?_
  dsimp only
  split
  . infer_instance
  . refine .ite (.after fun _ => .after fun value => ?_) .fail_bind
    split <;> infer_instance

end Grammar

namespace TokenStream

variable {s : TokenStream} {i m : Nat} {k : TokenKind} {ks : List TokenKind}

theorem between_of_lt (hi : i < s.tokens.size) : s.Between i (i + 1) [(s.get i).kind] := by
  refine ⟨?_, rfl⟩
  unfold kindsFrom
  rw [get_eq_getElem hi, List.drop_eq_getElem_cons (by simpa using hi)]
  rfl

theorem Between.head (h : s.Between i m (k :: ks)) : (s.get i).kind = k ∧ s.Between (i + 1) m ks := by
  obtain ⟨hkind, hrest, -⟩ := get_of_kindsFrom h.kinds
  refine ⟨hkind, hrest, ?_⟩
  have := h.length
  rw [List.length_cons] at this
  omega

variable [s.KnowsArrows]

/-- Parentheses are parameters if and only if the arrow is behind them. -/
theorem startsArrow_parens_iff (hks : Balanced ks) (h : s.Between i m (parens ks))
    : Parser.startsArrow s i = true ↔ (s.get m).kind = .symbol .arrow := by
  have hkind : (s.get i).kind = .symbol .leftParen := h.head.1
  unfold Parser.startsArrow
  rw [hkind]
  dsimp only
  rw [contains_iff hks h.kinds, kind_get s m]
  cases s.kindsFrom m <;> simp

theorem startsArrow_of_head (hks : Grammar.ArrowHead ks) (h : s.Between i m ks)
    : Parser.startsArrow s i = true := by
  obtain ⟨name, rfl⟩ | ⟨inner, hinner, rfl⟩ := hks
  . obtain ⟨hkind, h⟩ := h.head
    obtain ⟨harrow, -⟩ := h.head
    unfold Parser.startsArrow
    rw [hkind]
    exact decide_eq_true harrow
  . have hkinds := h.kinds
    rw [List.append_assoc] at hkinds
    unfold Parser.startsArrow
    rw [(h.head : _ ∧ _).1]
    exact (contains_iff hinner hkinds).2 rfl

end TokenStream

namespace Window

variable {w : Window} {k n : Nat}

theorem between {m : Nat} {ks : List TokenKind} (h : w.source.Between (w.start + k) (w.start + m) ks)
    (hm : m ≤ w.width)
    : w.target.Between (w.place + k) (w.place + m) ks := by
  induction ks generalizing k with
  | nil =>
    obtain rfl : k = m := by simpa using h.length
    exact .nil
  | cons kind ks ih =>
    obtain ⟨hkind, hrest⟩ := h.head
    have hlength := h.length
    rw [List.length_cons] at hlength
    have hk : k < w.width := by omega
    have hsize := w.place_le
    have hfirst := TokenStream.between_of_lt (s := w.target) (i := w.place + k) (by omega)
    rw [(w.moved k hk).kind, hkind] at hfirst
    exact hfirst.append (ih (k := k + 1) hrest)

/-- Where the stretch ends, there is no arrow in the target. -/
theorem kind_arrow (hk : k ≤ w.width) (harrow : (w.target.get (w.place + k)).kind = .symbol .arrow)
    : (w.source.get (w.start + k)).kind = .symbol .arrow := by
  rcases Nat.lt_or_eq_of_le hk with hk | rfl
  . rwa [← (w.moved k hk).kind]
  . rw [w.closed] at harrow
    cases harrow

/-- An expression that stays within the stretch is an arrow function in both scripts or in none. -/
theorem startsArrow_eq (hk : k < w.width) {e : Expr} {k' : Nat}
    (hok : (assignmentRule (ofLevels n)).at w.source (w.start + k) = .ok (e, w.start + k'))
    (hk' : k' ≤ w.width)
    : Parser.startsArrow w.target (w.place + k) = Parser.startsArrow w.source (w.start + k) := by
  by_cases hsource : Parser.startsArrow w.source (w.start + k) = true
  . obtain ⟨ks, m, hhead, hks, hm⟩ := assignmentRule_begins_arrow hsource _ _ hok
    have := hks.length
    obtain ⟨m, rfl⟩ := Nat.exists_eq_add_of_le (show w.start ≤ m by omega)
    rw [hsource]
    exact TokenStream.startsArrow_of_head hhead (between hks (by omega))
  . rw [Bool.eq_iff_iff, iff_false_right hsource]
    intro htarget
    apply hsource
    unfold Parser.startsArrow at htarget
    split at htarget
    . next name hname =>
      have harrow := w.kind_arrow (k := k + 1) hk (of_decide_eq_true htarget)
      rw [(w.moved k hk).kind] at hname
      unfold Parser.startsArrow
      rw [hname]
      exact decide_eq_true harrow
    . next hleft =>
      rw [(w.moved k hk).kind] at hleft
      obtain ⟨_, m, ⟨inner, hinner, rfl⟩, hks, hm⟩ := assignmentRule_begins hsource hleft _ _ hok
      have := hks.length
      obtain ⟨m, rfl⟩ := Nat.exists_eq_add_of_le (show w.start ≤ m by omega)
      have hks' := between hks (by omega)
      rw [TokenStream.startsArrow_parens_iff hinner hks]
      refine kind_arrow (by omega) ((TokenStream.startsArrow_parens_iff hinner hks').1 ?_)
      unfold Parser.startsArrow
      rw [(w.moved k hk).kind, hleft]
      exact htarget
    . cases htarget

end Window
end ScriptHost
