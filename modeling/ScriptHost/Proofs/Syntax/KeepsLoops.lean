import ScriptHost.Proofs.Syntax.Keeps

/-!
This module contains that the end of a statement and loops keep their results in a copy of the tokens with the
missing semicolons inserted. A loop runs on the fuel that the copy gives it.
-/

namespace ScriptHost

open Grammar Known

namespace Parser

variable {s : TokenStream} {i : Nat}

theorem demand_at (due : Nat → Bool)
    : (demand due).at s i = if due i then (expectSymbol .semicolon).at s i else semicolon.at s i := by
  have hdemand : (demand due).at s i = (if due i then expectSymbol .semicolon else semicolon : Parser Unit).at s i :=
    rfl
  rw [hdemand]
  split <;> rfl

theorem demand_at_semicolon (due : Nat → Bool) (hkind : (s.get i).kind = .symbol .semicolon)
    : (demand due).at s i = .ok ((), i + 1) := by
  rw [demand_at, expectSymbol_at, semicolon_at, if_pos hkind, if_pos hkind, ite_self]

theorem demand_at_missing {due : Nat → Bool} (h : s.Missing i) (hdue : due i = false)
    : (demand due).at s i = .ok ((), i) := by
  rw [demand_at, hdue, semicolon_at, if_neg h.1, if_pos h.2]
  rfl

theorem demand_at_due {due : Nat → Bool} (h : s.Missing i) (hdue : due i = true)
    : ∃ e, (demand due).at s i = .error e := by
  rw [demand_at, hdue, expectSymbol_at, if_neg h.1]
  exact ⟨_, rfl⟩

theorem demand_eq_ok {j : Nat} (hok : (demand never).at s i = .ok ((), j))
    : (s.get i).kind = .symbol .semicolon ∧ j = i + 1 ∨ s.Missing i ∧ j = i := by
  rw [demand_never, semicolon_at] at hok
  split at hok
  . next hkind =>
    cases hok
    exact .inl ⟨hkind, rfl⟩
  split at hok
  . next hkind hmissing =>
    cases hok
    exact .inr ⟨⟨hkind, hmissing⟩, rfl⟩
  . cases hok

end Parser

namespace TokenStream.Copies

variable {s t : TokenStream} {k n k' m : Nat} {ws : List Nat}

/-- A semicolon that is inserted at the end of a copy. -/
theorem of_concat (h : s.Copies t k n (ws ++ [k']) k' m) (hws : ∀ w ∈ ws, w < k')
    : ∃ l, s.Copies t k n ws k' l ∧ (t.get l).kind = .symbol .semicolon ∧ m = l + 1 := by
  obtain ⟨l, hleft, hright⟩ := h.split h.le (Nat.le_refl k') (fun w hw => Nat.le_of_lt (hws w hw)) (by simp)
  refine ⟨l, hleft, ?_⟩
  cases hright with
  | token _ _ h => exact absurd h.le (Nat.not_succ_le_self k')
  | semicolon _ hkind h => exact ⟨hkind, (h.target_eq nofun).1.symm⟩

end TokenStream.Copies

variable {α β σ ρ : Type} {s : TokenStream} {k k₁ k' : Nat} {P : Known} {c : Bool} {X : (Nat → Bool) → Parser α}
  {F : (Nat → Bool) → α → Parser β} {a : α} {b : β} {ws : List Nat}

/-- A statement that ends here without a semicolon. -/
theorem Omits.concat {Y₁ : TokenStream → Nat → Parser α → Prop} {Y : TokenStream → Nat → Parser β → Prop}
    (hx : Omits s k true X a k' ws Y₁) (hlt : k < k') (hmissing : s.Missing k')
    (hF : ∀ due, (F due a).at s k' = (Parser.demand due >>= fun _ => pure b).at s k')
    (hY : ∀ t n y, Y t n y → ∃ x f due, y = x >>= f ∧ Y₁ t n x ∧ ∀ m, s.Copies t k n ws k' m →
      (t.get m).kind = .symbol .semicolon → (f a).at t m = (Parser.demand due >>= fun _ => pure b).at t m)
    : Omits s k false (fun due => X due >>= F due) b k' (ws ++ [k']) Y where
  sorted := by
    refine List.pairwise_append.2 ⟨hx.sorted, List.pairwise_singleton _ _, fun w hw w' hw' => ?_⟩
    rw [List.mem_singleton.1 hw']
    exact (hx.bounds w hw).2.2 rfl
  bounds w hw := by
    rcases List.mem_append.1 hw with hw | hw
    . exact ⟨(hx.bounds w hw).1, (hx.bounds w hw).2.1, nofun⟩
    . rw [List.mem_singleton.1 hw]
      exact ⟨hlt, Nat.le_refl k', nofun⟩
  missing := List.forall_mem_append.2 ⟨hx.missing, by simpa using hmissing⟩
  accepts := by
    refine hx.accepts_append fun due hdue => ?_
    rw [hF due, Parser.bind_at, Parser.demand_at_missing hmissing (hdue k' List.mem_cons_self)]
    rfl
  rejects := by
    refine hx.rejects_append fun due ⟨w, hw, hdue⟩ => ?_
    rw [List.mem_singleton.1 hw] at hdue
    obtain ⟨e, he⟩ := Parser.demand_at_due hmissing hdue
    exact ⟨e, by rw [hF due, Parser.bind_at, he]; rfl⟩
  writes t _ n m hcopies _ y hy := by
    obtain ⟨l, hleft, hkind, rfl⟩ := hcopies.of_concat fun w hw => (hx.bounds w hw).2.2 rfl
    obtain ⟨x, f, due, rfl, hx', hf⟩ := hY t n y hy
    rw [Parser.bind_at, hx.writes t n l hleft (.inr ⟨rfl, hkind⟩) x hx']
    dsimp only [Except.bind]
    rw [hf l hleft hkind, Parser.bind_at, Parser.demand_at_semicolon due hkind]
    rfl

namespace Keeps

/--
The end of a statement: behind a reader that takes a token, what is read is a semicolon. Wherever the reader is
in the script or in the copy, the token behind it may be a semicolon there.
-/
theorem ended_of {g : α → β} (hx : Keeps s k P true X) (hlt : ∀ a k', (X never).at s k = .ok (a, k') → k < k')
    (hF : ∀ a k' due t n, (X never).at s k = .ok (a, k') → (t.get n).StandsFor true (s.get k') → behind s k' t n →
      (F due a).at t n = (Parser.demand due >>= fun _ => Pure.pure (g a)).at t n)
    : Keeps s k P false (fun due => X due >>= F due) := by
  intro b k' hk hok
  obtain ⟨a, k₁, ha, hb⟩ := Parser.bind_eq_ok hok
  have hlt := hlt a k₁ ha
  have hpos : 0 < k₁ := Nat.lt_of_le_of_lt (Nat.zero_le k) hlt
  have hsource := fun due => hF a k₁ due s k₁ ha (.inl rfl) ⟨hpos, hpos, rfl⟩
  rw [hsource] at hb
  obtain ⟨_, k₂, hdemand, hb⟩ := Parser.bind_eq_ok hb
  cases hb
  obtain ⟨hle, hsize, ws, hws⟩ := hx a k₁ hk ha
  have hend := hws.end_not_mem
  -- The semicolon is written, or it is missing and inserted in the copy.
  rcases Parser.demand_eq_ok hdemand with ⟨hkind, rfl⟩ | ⟨hmissing, rfl⟩
  . have hstep : ∀ {t m} due, (t.get m).kind = .symbol .semicolon →
        (Parser.demand due >>= fun _ => Pure.pure (g a)).at t m = .ok (g a, m + 1) := by
      intro t m due hkind
      rw [Parser.bind_at, Parser.demand_at_semicolon due hkind]
      rfl
    have hrest : Omits s k₁ false (fun due => F due a) (g a) (k₁ + 1) [] fun t n y =>
        behind s k₁ t n ∧ ∃ due, y = F due a := by
      refine .token (fun due => (hsource due).trans (hstep due hkind)) ?_
      rintro t n _ htoken ⟨hbehind, due, rfl⟩
      exact (hF a k₁ due t n ha (.inl htoken) hbehind).trans (hstep due (htoken ▸ hkind))
    refine ⟨Nat.le_succ_of_le hle, s.lt_size_of_kind (by rw [hkind]; rintro ⟨⟩), ws ++ [],
      hws.bind hrest hle (Nat.le_succ k₁) (.inl rfl) ?_⟩
    rintro t n _ ⟨hP, due, rfl⟩
    exact ⟨X due, F due, rfl, ⟨hP, due, rfl⟩, fun m hcopies => ⟨hcopies.behind hend hlt, due, rfl⟩⟩
  . refine ⟨hle, hsize, ws ++ [k'], hws.concat hlt hmissing hsource ?_⟩
    rintro t n _ ⟨hP, due, rfl⟩
    refine ⟨X due, F due, due, rfl, ⟨hP, due, rfl⟩, fun m hcopies hkind => ?_⟩
    exact hF a k' due t m ha (.inr ⟨rfl, hkind⟩) (hcopies.behind hend hlt)

theorem ended {g : α → β} (hx : Keeps s k P true X) [hX : Takes 1 (X never)]
    : Keeps s k P false (fun due => X due >>= fun a => Parser.demand due >>= fun _ => Pure.pure (g a)) :=
  hx.ended_of hX.advances fun _ _ _ _ _ _ _ _ => rfl

end Keeps

/-- A loop of rounds, each of which goes on with a new state or ends with a result. -/
def Parser.rounds (round : σ → Parser (σ ⊕ ρ)) (stop : σ → ρ) : Nat → σ → Parser ρ
  | 0, state => return stop state
  | fuel + 1, state => do
    match ← round state with
    | .inl state => rounds round stop fuel state
    | .inr result => return result

/--
A loop with fuel enough keeps its result in the copy, if there is fuel enough there and each round that goes on
takes a token.
-/
theorem Omits.rounds {round : (Nat → Bool) → σ → Parser (σ ⊕ ρ)} {stop : σ → ρ}
    (hround : ∀ k state, Keeps s k (fun _ _ => True) c (fun due => round due state))
    (htakes : ∀ {k state state' k'}, (round never state).at s k = .ok (.inl state', k') → k < k') {fuel : Nat}
    {state : σ} {result : ρ} (hk : k ≤ s.tokens.size) (hfuel : s.tokens.size < k + fuel)
    (hok : (Parser.rounds (round never) stop fuel state).at s k = .ok (result, k'))
    : k ≤ k' ∧ k' ≤ s.tokens.size ∧
      ∃ ws, Omits s k c (fun due => Parser.rounds (round due) stop fuel state) result k' ws fun t n y =>
        ∃ due fuel', 0 < fuel' ∧ t.tokens.size < n + fuel' ∧ y = Parser.rounds (round due) stop fuel' state := by
  induction fuel generalizing k state with
  | zero => omega
  | succ fuel ih =>
    obtain ⟨found, k₁, hfound, hrest⟩ := Parser.bind_eq_ok hok
    obtain ⟨hle, hsize, ws, hws⟩ := hround k state found k₁ hk hfound
    cases found with
    | inl state' =>
      have hlt := htakes hfound
      obtain ⟨hle', hsize', ws', hws'⟩ := ih hsize (by omega) hrest
      refine ⟨Nat.le_trans hle hle', hsize', ws ++ ws', hws.bind hws' hle hle' (by cases c <;> simp) ?_⟩
      rintro t n _ ⟨due, fuel', hpos, hfuel', rfl⟩
      obtain ⟨fuel', rfl⟩ := Nat.exists_eq_add_one_of_ne_zero (Nat.ne_of_gt hpos)
      refine ⟨round due state, _, rfl, ⟨trivial, due, rfl⟩, fun m hcopies => ⟨due, fuel', ?_⟩⟩
      -- The round takes a token in the copy too, so the fuel that is left there is still enough.
      have := hcopies.target_lt hlt
      have := hcopies.target_le_size this
      exact ⟨by omega, by omega, rfl⟩
    | inr result' =>
      cases hrest
      have hend : Omits s k' c (fun _ => pure result) result k' [] fun _ _ y => y = pure result :=
        .look (fun _ => rfl) fun _ _ _ _ hy => hy ▸ rfl
      refine ⟨hle, hsize, ws ++ [], hws.bind hend hle (Nat.le_refl k') (by cases c <;> simp) ?_⟩
      rintro t n _ ⟨due, fuel', hpos, hfuel', rfl⟩
      obtain ⟨fuel', rfl⟩ := Nat.exists_eq_add_one_of_ne_zero (Nat.ne_of_gt hpos)
      exact ⟨round due state, _, rfl, ⟨trivial, due, rfl⟩, fun m _ => rfl⟩

namespace Keeps

theorem rounds {round : (Nat → Bool) → σ → Parser (σ ⊕ ρ)} {stop : σ → ρ} {state : σ}
    (hround : ∀ k state, Keeps s k (fun _ _ => True) c (fun due => round due state))
    (htakes : ∀ {k state state' k'}, (round never state).at s k = .ok (.inl state', k') → k < k')
    : Keeps s k P c (fun due => do Parser.rounds (round due) stop (← Parser.remaining) state) := by
  intro result k' hk hok
  rw [Parser.bind_at, Parser.remaining_at] at hok
  obtain ⟨hle, hsize, ws, hws⟩ := Omits.rounds hround htakes hk (by omega) hok
  refine ⟨hle, hsize, ws, hws.congr (fun _ => rfl) fun t _ n m hcopies hend => ?_⟩
  rintro _ ⟨-, due, rfl⟩
  rw [Parser.bind_at, Parser.remaining_at]
  exact hws.writes t n m hcopies hend _ ⟨due, _, Nat.succ_pos _, by omega, rfl⟩

end Keeps

namespace Parser

def manyRound (more : Parser Bool) (item : Parser α) (items : Array α) : Parser (Array α ⊕ List α) := do
  if ← more then
    return .inl (items.push (← item))
  else
    return .inr items.toList

theorem many_go_eq_rounds (more : Parser Bool) (item : Parser α) (fuel : Nat) (items : Array α)
    : many.go more item fuel items = rounds (manyRound more item) Array.toList fuel items := by
  induction fuel generalizing items with
  | zero => rfl
  | succ fuel ih =>
    rw [many.go, rounds, manyRound, bind_assoc]
    congr 1
    funext found
    split
    . simp only [ih, bind_assoc, pure_bind]
    . rw [pure_bind]

def listRound (close : Symbol) (item : Parser α) (items : Array α) : Parser (Array α ⊕ List α) := do
  if ← checkSymbol close then
    return .inr items.toList
  let items := items.push (← item)
  if ← acceptSymbol .comma then
    return .inl items
  else
    return .inr items.toList

theorem listUntil_go_eq_rounds (close : Symbol) (item : Parser α) (fuel : Nat) (items : Array α)
    : listUntil.go close item fuel items = rounds (listRound close item) Array.toList fuel items := by
  induction fuel generalizing items with
  | zero => rfl
  | succ fuel ih =>
    rw [listUntil.go, rounds, listRound, bind_assoc]
    congr 1
    funext found
    split
    . rw [pure_bind]
    . simp only [ih, bind_assoc]
      congr 1
      funext item
      congr 1
      funext found
      split <;> rw [pure_bind]

end Parser

namespace Keeps

variable {item : (Nat → Bool) → Parser α} [hitem : Takes 1 (item never)]

theorem many {more : Parser Bool} [hmore : Takes 0 more] (h : ∀ k P, Keeps s k P c fun _ => more)
    (h' : ∀ k P, Keeps s k P c item)
    : Keeps s k P c (fun due => Parser.many more (item due)) := by
  unfold Parser.many
  simp only [Parser.many_go_eq_rounds]
  refine rounds (fun k items => (h k _).bind fun found i => ?_) fun {k items items' k'} hok => ?_
  . exact .ite (fun _ => (h' i _).bind fun _ _ => .pure) fun _ => .pure
  obtain ⟨found, k₁, hfound, hok⟩ := Parser.bind_eq_ok hok
  have := hmore.advances found k₁ hfound
  split at hok
  . obtain ⟨a, k₂, ha, hok⟩ := Parser.bind_eq_ok hok
    have := hitem.advances a k₂ ha
    cases hok
    omega
  . cases hok

theorem commaSeparated (h : ∀ k P, Keeps s k P true item)
    : Keeps s k P true (fun due => Parser.commaSeparated (item due)) :=
  (h k P).bind fun _ _ => (many (fun _ _ => acceptSymbol (.inr (by decide))) h).bind fun _ _ => .pure

theorem listUntil {close : Symbol} (h : ∀ k P, Keeps s k P false item)
    : Keeps s k P false (fun due => Parser.listUntil close (item due)) := by
  unfold Parser.listUntil
  simp only [Parser.listUntil_go_eq_rounds]
  refine rounds (fun k items => ?_) ?_
  . refine .seen (.checkSymbol (.ite (fun _ => .pure) fun _ => ?_))
    exact (h k _).bind fun a i => (acceptSymbol (.inl rfl)).bind fun found j => .ite (fun _ => .pure) fun _ => .pure
  . intro k items items' k' hok
    obtain ⟨found, k₁, hfound, hok⟩ := Parser.bind_eq_ok hok
    cases hfound
    split at hok
    . cases hok
    . obtain ⟨a, k₂, ha, hok⟩ := Parser.bind_eq_ok hok
      obtain ⟨found, k₃, hfound, hok⟩ := Parser.bind_eq_ok hok
      have := hitem.advances a k₂ ha
      have := Takes.advances (n := 0) (x := Parser.acceptSymbol .comma) found k₃ hfound
      split at hok <;> cases hok
      omega

end Keeps
end ScriptHost
