import ScriptHost.Proofs.Syntax.Heads

/-!
This module contains copies of stretches of tokens with semicolons inserted. Semicolons make no difference for
parentheses, so what is balanced stays balanced.
-/

namespace ScriptHost

open Grammar

/-- The second list is the first one with semicolons inserted. -/
inductive Padded : List TokenKind → List TokenKind → Prop where
  | nil : Padded [] []
  | cons {k : TokenKind} {ks ks' : List TokenKind} (h : Padded ks ks') : Padded (k :: ks) (k :: ks')
  | semicolon {ks ks' : List TokenKind} (h : Padded ks ks') : Padded ks (.symbol .semicolon :: ks')

namespace Padded

variable {k : TokenKind} {ks ks₁ ks₂ ks' : List TokenKind}

theorem of_append (h : Padded (ks₁ ++ ks₂) ks')
    : ∃ ks₁' ks₂', ks' = ks₁' ++ ks₂' ∧ Padded ks₁ ks₁' ∧ Padded ks₂ ks₂' := by
  generalize hks : ks₁ ++ ks₂ = ks at h
  induction h generalizing ks₁ with
  | nil =>
    obtain ⟨rfl, rfl⟩ := List.append_eq_nil_iff.1 hks
    exact ⟨[], [], rfl, .nil, .nil⟩
  | @cons k ks ks' h ih =>
    cases ks₁ with
    | nil =>
      subst hks
      exact ⟨[], _, rfl, .nil, .cons h⟩
    | cons k₁ ks₁ =>
      obtain ⟨rfl, hrest⟩ := List.cons.inj hks
      obtain ⟨ks₁', ks₂', rfl, h₁, h₂⟩ := ih hrest
      exact ⟨_, _, rfl, .cons h₁, h₂⟩
  | semicolon h ih =>
    obtain ⟨ks₁', ks₂', rfl, h₁, h₂⟩ := ih hks
    exact ⟨_ :: ks₁', ks₂', rfl, .semicolon h₁, h₂⟩

theorem of_cons (h : Padded (k :: ks) ks')
    : ∃ before after, ks' = before ++ k :: after ∧ Padded [] before ∧ Padded ks after := by
  generalize hks : k :: ks = ks₀ at h
  induction h with
  | nil => cases hks
  | cons h =>
    cases hks
    exact ⟨[], _, rfl, .nil, h⟩
  | semicolon h ih =>
    obtain ⟨before, after, rfl, hbefore, hafter⟩ := ih hks
    exact ⟨_ :: before, after, rfl, .semicolon hbefore, hafter⟩

theorem balanced_nil (h : Padded [] ks') : Balanced ks' := by
  generalize hks : ([] : List TokenKind) = ks at h
  induction h with
  | nil => exact .nil
  | cons => cases hks
  | semicolon _ ih => exact .cons nofun nofun (ih hks)

end Padded

theorem Balanced.padded {ks ks' : List TokenKind} (hks : Balanced ks) (h : Padded ks ks') : Balanced ks' := by
  induction hks generalizing ks' with
  | nil => exact h.balanced_nil
  | cons hleft hright _ ih =>
    obtain ⟨before, after, rfl, hbefore, hafter⟩ := h.of_cons
    exact .append hbefore.balanced_nil (.cons hleft hright (ih hafter))
  | append _ _ ih ih' =>
    obtain ⟨ks₁', ks₂', rfl, h₁, h₂⟩ := h.of_append
    exact .append (ih h₁) (ih' h₂)
  | parens _ ih =>
    obtain ⟨before, after, rfl, hbefore, hafter⟩ := h.of_cons
    obtain ⟨inner, last, rfl, hinner, hlast⟩ := hafter.of_append
    obtain ⟨close, rest, rfl, hclose, hrest⟩ := hlast.of_cons
    have hparens : Balanced (ScriptHost.parens (inner ++ close)) := .parens ((ih hinner).append hclose.balanced_nil)
    have hall := (hbefore.balanced_nil.append hparens).append hrest.balanced_nil
    rwa [List.append_assoc, parens_append, List.append_assoc] at hall

/-- The token stands at the place of the original, or if that is allowed, a semicolon does. -/
def Token.StandsFor (closed : Bool) (token original : Token) : Prop :=
  token = original ∨ closed = true ∧ token.kind = .symbol .semicolon

theorem Token.StandsFor.kind_arrow {closed : Bool} {token original : Token} (h : token.StandsFor closed original)
    (harrow : token.kind = .symbol .arrow)
    : original.kind = .symbol .arrow := by
  rcases h with rfl | ⟨-, hkind⟩
  . exact harrow
  . cases harrow.symm.trans hkind

namespace TokenStream

/--
The tokens of `t` from `n` to `m` are those of `s` from `k` to `k'`, with a semicolon inserted at each of the
positions `ws`.
-/
inductive Copies (s t : TokenStream) : (k n : Nat) → (ws : List Nat) → (k' m : Nat) → Prop where
  | nil {k n : Nat} : Copies s t k n [] k n
  | token {k n k' m : Nat} {ws : List Nat} (hn : n < t.tokens.size) (htoken : t.get n = s.get k)
      (h : Copies s t (k + 1) (n + 1) ws k' m)
    : Copies s t k n ws k' m
  | semicolon {k n k' m : Nat} {ws : List Nat} (hn : n < t.tokens.size)
      (hkind : (t.get n).kind = .symbol .semicolon) (h : Copies s t k (n + 1) ws k' m)
    : Copies s t k n (k :: ws) k' m

namespace Copies

variable {s t : TokenStream} {k n j k' m l : Nat} {ws ws₁ ws₂ : List Nat} {ks : List TokenKind}

theorem le (h : Copies s t k n ws k' m) : k ≤ k' := by
  induction h with
  | nil => exact Nat.le_refl _
  | token _ _ _ ih => exact Nat.le_of_succ_le ih
  | semicolon _ _ _ ih => exact ih

theorem target_le (h : Copies s t k n ws k' m) : n ≤ m := by
  induction h with
  | nil => exact Nat.le_refl _
  | token _ _ _ ih => exact Nat.le_of_succ_le ih
  | semicolon _ _ _ ih => exact Nat.le_of_succ_le ih

theorem target_le_size (h : Copies s t k n ws k' m) (hlt : n < m) : m ≤ t.tokens.size := by
  induction h with
  | nil => exact absurd hlt (Nat.lt_irrefl _)
  | token hn _ h ih | semicolon hn _ h ih =>
    rcases Nat.lt_or_eq_of_le h.target_le with hlt | rfl
    . exact ih hlt
    . exact hn

theorem of_mem (h : Copies s t k n ws k' m) {w : Nat} (hw : w ∈ ws) : k ≤ w := by
  induction h with
  | nil => cases hw
  | token _ _ _ ih => exact Nat.le_of_succ_le (ih hw)
  | semicolon _ _ _ ih =>
    rcases List.mem_cons.1 hw with rfl | hw
    . exact Nat.le_refl _
    . exact ih hw

/-- Where no semicolon is inserted in front of it, the next token is the same. -/
theorem head (h : Copies s t k n ws k' m) (hk : k ∉ ws) (hlt : k < k')
    : n < t.tokens.size ∧ t.get n = s.get k ∧ Copies s t (k + 1) (n + 1) ws k' m := by
  cases h with
  | nil => exact absurd hlt (Nat.lt_irrefl _)
  | token hn htoken h => exact ⟨hn, htoken, h⟩
  | semicolon => exact absurd List.mem_cons_self hk

theorem target_eq (h : Copies s t k n ws k m) (hk : k ∉ ws) : n = m ∧ ws = [] := by
  cases h with
  | nil => exact ⟨rfl, rfl⟩
  | token _ _ h => exact absurd h.le (Nat.not_succ_le_self _)
  | semicolon => exact absurd List.mem_cons_self hk

theorem target_lt (h : Copies s t k n ws k' m) (hlt : k < k') : n < m := by
  cases h with
  | nil => exact absurd hlt (Nat.lt_irrefl _)
  | token _ _ h => exact h.target_le
  | semicolon _ _ h => exact h.target_le

/-- Where no semicolon is inserted behind it, the last token is the same. -/
theorem last (h : Copies s t k n ws k' m) (hk' : k' ∉ ws) (hlt : k < k')
    : t.get (m - 1) = s.get (k' - 1) := by
  induction h with
  | nil => exact absurd hlt (Nat.lt_irrefl _)
  | @token k n k' m ws _ htoken h ih =>
    rcases Nat.lt_or_eq_of_le h.le with hlt | rfl
    . exact ih hk' hlt
    . obtain ⟨rfl, -⟩ := h.target_eq hk'
      exact htoken
  | semicolon _ _ _ ih => exact ih (fun hw => hk' (List.mem_cons_of_mem _ hw)) hlt

theorem split (h : Copies s t k n (ws₁ ++ ws₂) k' m) (hj : k ≤ j) (hj' : j ≤ k') (h₁ : ∀ w ∈ ws₁, w ≤ j)
    (h₂ : ∀ w ∈ ws₂, j ≤ w)
    : ∃ l, Copies s t k n ws₁ j l ∧ Copies s t j l ws₂ k' m := by
  generalize hws : ws₁ ++ ws₂ = ws at h
  induction h generalizing ws₁ with
  | nil =>
    obtain ⟨rfl, rfl⟩ := List.append_eq_nil_iff.1 hws
    obtain rfl := Nat.le_antisymm hj hj'
    exact ⟨_, .nil, .nil⟩
  | @token k n k' m ws hn htoken h ih =>
    rcases Nat.lt_or_eq_of_le hj with hlt | rfl
    . obtain ⟨l, hleft, hright⟩ := ih hlt hj' h₁ hws
      exact ⟨l, .token hn htoken hleft, hright⟩
    . have hnil : ws₁ = [] := by
        refine List.eq_nil_iff_forall_not_mem.2 fun w hw => ?_
        have := h₁ w hw
        have := h.of_mem (hws ▸ List.mem_append_left _ hw)
        omega
      subst hnil
      subst hws
      exact ⟨n, .nil, .token hn htoken h⟩
  | @semicolon k n k' m ws hn hkind h ih =>
    cases ws₁ with
    | nil =>
      have := h₂ k (by rw [List.nil_append] at hws; exact hws ▸ List.mem_cons_self)
      obtain rfl : j = k := Nat.le_antisymm this hj
      subst hws
      exact ⟨n, .nil, .semicolon hn hkind h⟩
    | cons w ws₁ =>
      obtain ⟨rfl, hrest⟩ := List.cons.inj hws
      obtain ⟨l, hleft, hright⟩ := ih hj hj' (List.forall_mem_cons.1 h₁).2 hrest
      exact ⟨l, .semicolon hn hkind hleft, hright⟩

/-- The part up to a position, without a semicolon that is inserted there, and the rest. -/
theorem cut (h : Copies s t k n ws k' m) (hj : k ≤ j) (hj' : j ≤ k')
    : ∃ ws₁ ws₂ l, ws = ws₁ ++ ws₂ ∧ (∀ w ∈ ws₁, w < j) ∧ Copies s t k n ws₁ j l ∧ Copies s t j l ws₂ k' m := by
  induction h with
  | nil =>
    obtain rfl := Nat.le_antisymm hj hj'
    exact ⟨[], [], _, rfl, nofun, .nil, .nil⟩
  | @token k n k' m ws hn htoken h ih =>
    rcases Nat.lt_or_eq_of_le hj with hlt | rfl
    . obtain ⟨ws₁, ws₂, l, rfl, hws₁, hleft, hright⟩ := ih hlt hj'
      exact ⟨ws₁, ws₂, l, rfl, hws₁, .token hn htoken hleft, hright⟩
    . exact ⟨[], ws, n, rfl, nofun, .nil, .token hn htoken h⟩
  | @semicolon k n k' m ws hn hkind h ih =>
    rcases Nat.lt_or_eq_of_le hj with hlt | rfl
    . obtain ⟨ws₁, ws₂, l, rfl, hws₁, hleft, hright⟩ := ih hj hj'
      exact ⟨k :: ws₁, ws₂, l, rfl, List.forall_mem_cons.2 ⟨hlt, hws₁⟩, .semicolon hn hkind hleft, hright⟩
    . exact ⟨[], k :: ws, n, rfl, nofun, .nil, .semicolon hn hkind h⟩

theorem next {closed : Bool} (h : Copies s t k n ws k' m) (hend : (t.get m).StandsFor closed (s.get k'))
    : (t.get n).StandsFor true (s.get k) := by
  cases h with
  | nil => exact hend.imp_right fun h => ⟨rfl, h.2⟩
  | token _ htoken _ => exact .inl htoken
  | semicolon _ hkind _ => exact .inr ⟨rfl, hkind⟩

theorem between (h : Copies s t k n ws k' m) (hks : s.Between k k' ks)
    : ∃ ks', t.Between n m ks' ∧ Padded ks ks' := by
  induction h generalizing ks with
  | nil =>
    obtain rfl : ks = [] := by simpa using hks.length
    exact ⟨[], .nil, .nil⟩
  | @token k n k' m ws hn htoken h ih =>
    cases ks with
    | nil =>
      have := h.le
      have := hks.length
      rw [List.length_nil] at this
      omega
    | cons kind ks =>
      obtain ⟨hkind, hks⟩ := hks.head
      obtain ⟨ks', hks', hpadded⟩ := ih hks
      have hfirst := between_of_lt hn
      rw [htoken, hkind] at hfirst
      exact ⟨kind :: ks', hfirst.append hks', .cons hpadded⟩
  | semicolon hn hkind _ ih =>
    obtain ⟨ks', hks', hpadded⟩ := ih hks
    have hfirst := between_of_lt hn
    rw [hkind] at hfirst
    exact ⟨_ :: ks', hfirst.append hks', .semicolon hpadded⟩

end Copies

theorem Between.split {s : TokenStream} {i j : Nat} {ks ks' : List TokenKind} (h : s.Between i j (ks ++ ks'))
    : s.Between i (i + ks.length) ks ∧ s.Between (i + ks.length) j ks' := by
  have hdrop : s.kindsFrom (i + ks.length) = (s.kindsFrom i).drop ks.length := by
    unfold kindsFrom
    rw [← List.map_drop, List.drop_drop]
  have hrest : s.kindsFrom (i + ks.length) = ks' ++ s.kindsFrom j := by
    rw [hdrop, h.kinds, List.append_assoc, List.drop_left]
  have hlength := h.length
  rw [List.length_append] at hlength
  exact ⟨⟨by rw [hrest, h.kinds, List.append_assoc], rfl⟩, hrest, by omega⟩

/-- Parentheses without a semicolon in front of them or behind them are copied as parentheses. -/
theorem Copies.parens {s t : TokenStream} {k n k' m : Nat} {ws : List Nat} {ks : List TokenKind}
    (h : Copies s t k n ws k' m) (hk : k ∉ ws) (hk' : ∀ w ∈ ws, w < k') (hks : Balanced ks)
    (hparens : s.Between k k' (ScriptHost.parens ks))
    : ∃ ks', Balanced ks' ∧ t.Between n m (ScriptHost.parens ks') := by
  obtain ⟨hleft, hrest⟩ := hparens.head
  obtain ⟨hinner, hlast⟩ := hrest.split
  obtain ⟨hright, hend⟩ := hlast.head
  have hlength := hend.length
  rw [List.length_nil, Nat.add_zero] at hlength
  subst hlength
  obtain ⟨-, hopen, h⟩ := h.head hk (by omega)
  rw [← List.append_nil ws] at h
  obtain ⟨l, hcopy, hclose⟩ := h.split (j := k + 1 + ks.length) (by omega) (by omega)
    (fun w hw => Nat.le_of_lt_succ (hk' w hw)) nofun
  obtain ⟨-, hclosed, hdone⟩ := hclose.head nofun (by omega)
  obtain ⟨rfl, -⟩ := hdone.target_eq nofun
  obtain ⟨ks', hks', hpadded⟩ := hcopy.between hinner
  exact ⟨ks', hks.padded hpadded, between_parens (hopen ▸ hleft) hks' (hclosed ▸ hright)⟩

/-- Where no arrow function starts in the script, none does in the copy. -/
theorem Copies.not_startsArrow {s t : TokenStream} [s.KnowsArrows] [t.KnowsArrows] {k n k' m levels : Nat}
    {ws : List Nat} {closed : Bool} {e : Expr} (h : Copies s t k n ws k' m) (hk : k ∉ ws) (hlt : k < k')
    (hend : (t.get m).StandsFor closed (s.get k')) (harrow : ¬ Parser.startsArrow s k = true)
    (hok : (assignmentRule (ofLevels levels)).at s k = .ok (e, k'))
    : ¬ Parser.startsArrow t n = true := by
  obtain ⟨-, htoken, hrest⟩ := h.head hk hlt
  intro htarget
  apply harrow
  unfold Parser.startsArrow at htarget
  split at htarget
  . next name hname =>
    rw [htoken] at hname
    unfold Parser.startsArrow
    rw [hname]
    exact decide_eq_true ((hrest.next hend).kind_arrow (of_decide_eq_true htarget))
  . next hleft =>
    rw [htoken] at hleft
    obtain ⟨_, j, ⟨inner, hinner, rfl⟩, hparens, hj⟩ := assignmentRule_begins harrow hleft _ _ hok
    have hle := hparens.length
    -- The arrow would stand where the copy of the parentheses ends, or a semicolon does that is inserted there.
    obtain ⟨ws₁, ws₂, l, rfl, hws₁, hcopy, hbehind⟩ := h.cut (j := j) (by omega) hj
    obtain ⟨inner', hinner', hparens'⟩ := hcopy.parens (fun hw => hk (List.mem_append_left _ hw)) hws₁ hinner hparens
    rw [startsArrow_parens_iff hinner hparens]
    refine (hbehind.next hend).kind_arrow ((startsArrow_parens_iff hinner' hparens').1 ?_)
    unfold Parser.startsArrow
    rw [htoken, hleft]
    exact htarget
  . cases htarget

end TokenStream
end ScriptHost
