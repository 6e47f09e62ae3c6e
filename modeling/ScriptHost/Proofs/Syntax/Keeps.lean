import ScriptHost.Proofs.Syntax.Copies
import ScriptHost.Proofs.Syntax.Terminators

/-!
This module contains when a reader keeps its results in a copy of the tokens that it takes, with a semicolon
inserted wherever it leaves one out. There is one rule for each way to look at a token or to take it, and one for
each way to combine readers.
-/

namespace ScriptHost

open Grammar

/--
A reader has the result `a` at the tokens from `k` to `k'` and leaves semicolons out at the positions `ws` among
them. `X` is the reader for each set of positions where a semicolon is demanded, and `Y` are the readers that stand
for it in a copy, each of them with a position where it may begin. A reader that is closed leaves none out at its
end, so that a semicolon that another one leaves out there may follow it in the copy.
-/
structure Omits {α : Type} (s : TokenStream) (k : Nat) (closed : Bool) (X : (Nat → Bool) → Parser α) (a : α) (k' : Nat)
    (ws : List Nat) (Y : TokenStream → Nat → Parser α → Prop) : Prop where
  sorted : ws.Pairwise (· < ·)
  bounds : ∀ w ∈ ws, k < w ∧ w ≤ k' ∧ (closed = true → w < k')
  missing : ∀ w ∈ ws, s.Missing w
  accepts : ∀ due, (∀ w ∈ ws, due w = false) → (X due).at s k = .ok (a, k')
  rejects : ∀ due, (∃ w ∈ ws, due w = true) → ∃ e, (X due).at s k = .error e
  writes : ∀ (t : TokenStream) [t.KnowsArrows] (n m : Nat), s.Copies t k n ws k' m →
    (t.get m).StandsFor closed (s.get k') →
    ∀ y, Y t n y → y.at t n = .ok (a, m)

namespace Omits

variable {α β : Type} {s : TokenStream} {k k₁ k' : Nat} {c c₁ : Bool} {X : (Nat → Bool) → Parser α} {a : α} {b : β}
  {ws ws₁ : List Nat} {Y : TokenStream → Nat → Parser α → Prop}

theorem not_mem (h : Omits s k c X a k' ws Y) : k ∉ ws :=
  fun hw => Nat.lt_irrefl _ (h.bounds k hw).1

theorem end_not_mem (h : Omits s k true X a k' ws Y) : k' ∉ ws :=
  fun hw => Nat.lt_irrefl _ ((h.bounds k' hw).2.2 rfl)

/-- A reader that takes one token and does the same in the copy, whatever follows. -/
theorem token (hX : ∀ due, (X due).at s k = .ok (a, k + 1))
    (hY : ∀ t n y, t.get n = s.get k → Y t n y → y.at t n = .ok (a, n + 1))
    : Omits s k c X a (k + 1) [] Y where
  sorted := .nil
  bounds := nofun
  missing := nofun
  accepts due _ := hX due
  rejects := nofun
  writes t _ n m hcopies _ y hy := by
    obtain ⟨-, htoken, hrest⟩ := hcopies.head nofun (Nat.lt_succ_self k)
    obtain ⟨rfl, -⟩ := hrest.target_eq nofun
    exact hY t n y htoken hy

/-- A reader that takes nothing and gives the same result in the copy. -/
theorem look (hX : ∀ due, (X due).at s k = .ok (a, k))
    (hY : ∀ t n y, (t.get n).StandsFor c (s.get k) → Y t n y → y.at t n = .ok (a, n))
    : Omits s k c X a k [] Y where
  sorted := .nil
  bounds := nofun
  missing := nofun
  accepts due _ := hX due
  rejects := nofun
  writes t _ n m hcopies hend y hy := by
    obtain ⟨rfl, -⟩ := hcopies.target_eq nofun
    exact hY t n y hend hy

/-- Another reader that does the same in the script, and in the copies if it stands for the first one there. -/
theorem congr {X' : (Nat → Bool) → Parser α} {Y' : TokenStream → Nat → Parser α → Prop} (h : Omits s k c X a k' ws Y)
    (hX : ∀ due, (X' due).at s k = (X due).at s k)
    (hY : ∀ (t : TokenStream) [t.KnowsArrows] (n m : Nat), s.Copies t k n ws k' m →
      (t.get m).StandsFor c (s.get k') → ∀ y, Y' t n y → y.at t n = .ok (a, m))
    : Omits s k c X' a k' ws Y' :=
  { h with
    accepts := fun due hdue => (hX due).trans (h.accepts due hdue)
    rejects := fun due hdue => by rw [hX due]; exact h.rejects due hdue
    writes := hY }

theorem accepts_append {F : (Nat → Bool) → α → Parser β} {ws₂ : List Nat} (hx : Omits s k c₁ X a k₁ ws₁ Y)
    (hf : ∀ due, (∀ w ∈ ws₂, due w = false) → (F due a).at s k₁ = .ok (b, k'))
    : ∀ due, (∀ w ∈ ws₁ ++ ws₂, due w = false) → (X due >>= F due).at s k = .ok (b, k') := by
  intro due hdue
  obtain ⟨hdue₁, hdue₂⟩ := List.forall_mem_append.1 hdue
  rw [Parser.bind_at, hx.accepts due hdue₁]
  exact hf due hdue₂

theorem rejects_append {F : (Nat → Bool) → α → Parser β} {ws₂ : List Nat} (hx : Omits s k c₁ X a k₁ ws₁ Y)
    (hf : ∀ due, (∃ w ∈ ws₂, due w = true) → ∃ e, (F due a).at s k₁ = .error e)
    : ∀ due, (∃ w ∈ ws₁ ++ ws₂, due w = true) → ∃ e, (X due >>= F due).at s k = .error e := by
  intro due hdue
  rw [Parser.bind_at]
  by_cases hfirst : ∃ w ∈ ws₁, due w = true
  . obtain ⟨e, he⟩ := hx.rejects due hfirst
    exact ⟨e, by rw [he]; rfl⟩
  . have hnone : ∀ w ∈ ws₁, due w = false := fun w hw => Bool.eq_false_iff.2 fun h => hfirst ⟨w, hw, h⟩
    obtain ⟨w, hw, hdue⟩ := hdue
    have hw := (List.mem_append.1 hw).resolve_left fun hw => by simp [hnone w hw] at hdue
    rw [hx.accepts due hnone]
    exact hf due ⟨w, hw, hdue⟩

/--
One reader after another one. Where the first one can leave a semicolon out at its end, the second one has to see
what follows.
-/
theorem bind {F : (Nat → Bool) → α → Parser β} {Y₁ : TokenStream → Nat → Parser α → Prop}
    {Y₂ Y : TokenStream → Nat → Parser β → Prop} {ws₂ : List Nat}
    (hx : Omits s k c₁ X a k₁ ws₁ Y₁) (hf : Omits s k₁ c (fun due => F due a) b k' ws₂ Y₂)
    (hle : k ≤ k₁) (hle' : k₁ ≤ k') (hc : c₁ = true ∨ c = false ∨ k₁ < k')
    (hY : ∀ t n y, Y t n y → ∃ x f, y = x >>= f ∧ Y₁ t n x ∧ ∀ m, s.Copies t k n ws₁ k₁ m → Y₂ t m (f a))
    : Omits s k c (fun due => X due >>= F due) b k' (ws₁ ++ ws₂) Y where
  sorted := by
    refine List.pairwise_append.2 ⟨hx.sorted, hf.sorted, fun w hw w' hw' => ?_⟩
    exact Nat.lt_of_le_of_lt (hx.bounds w hw).2.1 (hf.bounds w' hw').1
  bounds w hw := by
    rcases List.mem_append.1 hw with hw | hw
    . obtain ⟨hlt, hle, hclosed⟩ := hx.bounds w hw
      refine ⟨hlt, by omega, fun h => ?_⟩
      rcases hc with hc | hc | hc
      . exact Nat.lt_of_lt_of_le (hclosed hc) hle'
      . exact absurd (h.symm.trans hc) nofun
      . omega
    . obtain ⟨hlt, hle⟩ := hf.bounds w hw
      exact ⟨by omega, hle⟩
  missing := List.forall_mem_append.2 ⟨hx.missing, hf.missing⟩
  accepts := hx.accepts_append hf.accepts
  rejects := hx.rejects_append hf.rejects
  writes t _ n m hcopies hend y hy := by
    obtain ⟨l, hleft, hright⟩ := hcopies.split hle hle' (fun w hw => (hx.bounds w hw).2.1)
      fun w hw => Nat.le_of_lt (hf.bounds w hw).1
    -- A semicolon at `k₁` is the first reader's: the second one leaves none out where it begins.
    have hfresh := hf.not_mem
    have hbetween : (t.get l).StandsFor c₁ (s.get k₁) := by
      rcases Nat.lt_or_eq_of_le hle' with hlt | rfl
      . exact .inl (hright.head hfresh hlt).2.1
      . obtain ⟨rfl, -⟩ := hright.target_eq hfresh
        refine hend.imp_right fun ⟨hclosed, hkind⟩ => ⟨?_, hkind⟩
        rcases hc with hc | hc | hc
        . exact hc
        . exact absurd (hclosed.symm.trans hc) nofun
        . exact absurd hc (Nat.lt_irrefl _)
    obtain ⟨x, f, rfl, hx', hf'⟩ := hY t n y hy
    rw [Parser.bind_at, hx.writes t n l hleft hbetween x hx']
    exact hf.writes t l m hright hend (f a) (hf' l hleft)

end Omits

/-- What is known of the place in the copy where a reader begins. -/
abbrev Known := TokenStream → Nat → Prop

namespace Known

/-- The next token is that of the original, too. -/
def next (s : TokenStream) (k : Nat) (P : Known) : Known :=
  fun t n => P t n ∧ t.get n = s.get k

/-- The token before it is that of the original. -/
def behind (s : TokenStream) (k : Nat) : Known :=
  fun t n => 0 < n ∧ 0 < k ∧ t.get (n - 1) = s.get (k - 1)

/-- It is known that the next token is that of the original. -/
class Sees (s : TokenStream) (k : Nat) (P : Known) : Prop where
  get_eq : ∀ {t n}, P t n → t.get n = s.get k

/-- It is known that the last token is that of the original. -/
class Saw (s : TokenStream) (k : Nat) (P : Known) : Prop where
  behind : ∀ {t n}, P t n → behind s k t n

variable {s : TokenStream} {k : Nat} {P : Known}

instance : Sees s k (next s k P) := ⟨And.right⟩
instance : Saw s k (behind s k) := ⟨id⟩
instance [h : Saw s k P] : Saw s k (next s k P) := ⟨fun hP => h.behind hP.1⟩

end Known

open Known

theorem TokenStream.Copies.behind {s t : TokenStream} {k n k' m : Nat} {ws : List Nat}
    (h : s.Copies t k n ws k' m) (hk' : k' ∉ ws) (hlt : k < k')
    : behind s k' t m :=
  ⟨Nat.lt_of_le_of_lt (Nat.zero_le n) (h.target_lt hlt), Nat.lt_of_le_of_lt (Nat.zero_le k) hlt, h.last hk' hlt⟩

/--
Whatever result a reader has at position `k`, it has it in every copy with the semicolons that it leaves out, if
what is known of the place there holds.
-/
def Keeps {α : Type} (s : TokenStream) (k : Nat) (P : Known) (closed : Bool) (X : (Nat → Bool) → Parser α) : Prop :=
  ∀ a k', k ≤ s.tokens.size → (X never).at s k = .ok (a, k') → k ≤ k' ∧ k' ≤ s.tokens.size ∧
    ∃ ws, Omits s k closed X a k' ws fun t n y => P t n ∧ ∃ due, y = X due

namespace Keeps

variable {α β : Type} {s : TokenStream} {k : Nat} {P : Known} {c : Bool} {x : Parser α}
  {X X' : (Nat → Bool) → Parser α} {F : (Nat → Bool) → α → Parser β}

theorem of_error (hx : ∀ a k', (X never).at s k ≠ .ok (a, k')) : Keeps s k P c X :=
  fun a k' _ hok => absurd hok (hx a k')

theorem unexpected : Keeps s k P c (fun _ => (Parser.unexpected : Parser α)) := by
  refine of_error ?_
  rintro a k' ⟨⟩

theorem fail_bind {fault : SyntaxFault} {loc : Location}
    : Keeps s k P c (fun due => Parser.fail fault loc >>= F due) :=
  of_error nofun

/-- A reader that may be followed by a semicolon need not be. -/
theorem of_closed (h : Keeps s k P true X) : Keeps s k P c X := by
  intro a k' hk hok
  obtain ⟨hle, hsize, ws, hws⟩ := h a k' hk hok
  refine ⟨hle, hsize, ws, { hws with
    bounds := fun w hw => ?_
    writes := fun t _ n m hcopies hend => hws.writes t n m hcopies (hend.imp_right fun h => ⟨rfl, h.2⟩) }⟩
  obtain ⟨hlt, hle, hclosed⟩ := hws.bounds w hw
  exact ⟨hlt, hle, fun _ => hclosed rfl⟩

theorem pure {a : α} : Keeps s k P c (fun _ => pure a) := by
  intro a' k' hk hok
  obtain ⟨rfl, rfl⟩ : a = a' ∧ k = k' := by simpa [Parser.pure_at] using hok
  exact ⟨Nat.le_refl k, hk, [], .look (fun _ => rfl) fun t n y _ ⟨_, _, hy⟩ => hy ▸ rfl⟩

theorem ite {p : Prop} [Decidable p] (hx : p → Keeps s k P c X) (hx' : ¬ p → Keeps s k P c X')
    : Keeps s k P c (fun due => if p then X due else X' due) := by
  by_cases h : p
  . simp only [if_pos h]
    exact hx h
  . simp only [if_neg h]
    exact hx' h

/-- A reader that does the same in the script, and in the copy as far as that is known. -/
theorem congr (h : Keeps s k P c X') (hs : ∀ due, (X due).at s k = (X' due).at s k)
    (ht : ∀ due t n, P t n → (X due).at t n = (X' due).at t n)
    : Keeps s k P c X := by
  intro a k' hk hok
  obtain ⟨hle, hsize, ws, hws⟩ := h a k' hk ((hs never).symm.trans hok)
  refine ⟨hle, hsize, ws, hws.congr hs fun t _ n m hcopies hend => ?_⟩
  rintro _ ⟨hP, due, rfl⟩
  rw [ht due t n hP]
  exact hws.writes t n m hcopies hend _ ⟨hP, due, rfl⟩

theorem pure_bind {a : α} (h : Keeps s k P c (fun due => F due a))
    : Keeps s k P c (fun due => Pure.pure a >>= F due) :=
  h.congr (fun _ => rfl) fun _ _ _ _ => rfl

/-! The rules for readers one after another. -/

/--
Where the first reader can leave a semicolon out at its end, the second one has to see what follows. What is known
behind the first one follows from the copy of what it takes.
-/
theorem bind_known {c₁ : Bool} {Q : Nat → Known} (hx : Keeps s k P c₁ X)
    (hf : ∀ a k', (X never).at s k = .ok (a, k') → Keeps s k' (Q k') c (fun due => F due a))
    (hc : c₁ = true ∨ c = false ∨ ∀ a k' b j, (F never a).at s k' = .ok (b, j) → k' < j)
    (hQ : ∀ a k', (X never).at s k = .ok (a, k') → ∀ t n m ws, P t n → s.Copies t k n ws k' m →
      (c₁ = true → k' ∉ ws) → Q k' t m)
    : Keeps s k P c (fun due => X due >>= F due) := by
  intro b k' hk hok
  obtain ⟨a, k₁, ha, hb⟩ := Parser.bind_eq_ok hok
  obtain ⟨hle, hsize, ws₁, hws₁⟩ := hx a k₁ hk ha
  obtain ⟨hle', hsize', ws₂, hws₂⟩ := hf a k₁ ha b k' hsize hb
  have hsees : c₁ = true ∨ c = false ∨ k₁ < k' := hc.imp_right (Or.imp_right fun h => h a k₁ b k' hb)
  refine ⟨Nat.le_trans hle hle', hsize', ws₁ ++ ws₂, hws₁.bind hws₂ hle hle' hsees ?_⟩
  rintro t n _ ⟨hP, due, rfl⟩
  refine ⟨X due, F due, rfl, ⟨hP, due, rfl⟩, fun m hcopies => ⟨hQ a k₁ ha t n m ws₁ hP hcopies ?_, due, rfl⟩⟩
  exact fun hclosed hw => Nat.lt_irrefl _ ((hws₁.bounds _ hw).2.2 hclosed)

theorem bind (hx : Keeps s k P c X) (hf : ∀ a k', Keeps s k' (fun _ _ => True) c (fun due => F due a))
    : Keeps s k P c (fun due => X due >>= F due) :=
  hx.bind_known (fun a k' _ => hf a k') (by cases c <;> simp) fun _ _ _ _ _ _ _ _ _ _ => trivial

/-- The reader behind takes a token, so that it sees what follows. -/
theorem bind_taking (hx : Keeps s k P false X) [hF : ∀ a, Takes 1 (F never a)]
    (hf : ∀ a k', Keeps s k' (fun _ _ => True) c (fun due => F due a))
    : Keeps s k P c (fun due => X due >>= F due) :=
  hx.bind_known (fun a k' _ => hf a k') (.inr (.inr fun a _ => (hF a).advances)) fun _ _ _ _ _ _ _ _ _ _ => trivial

theorem map {f : α → β} (h : Keeps s k P c X) : Keeps s k P c (fun due => f <$> X due) :=
  (h.bind (F := fun _ a => Pure.pure (f a)) fun _ _ => .pure).congr (fun _ => rfl) fun _ _ _ _ => rfl

/--
Behind a reader that leaves no semicolon out at its end, the last token is known if it was known before, or if a
token was taken.
-/
theorem bind_behind (hx : Keeps s k P true X)
    (hsaw : (∀ a k', (X never).at s k = .ok (a, k') → k < k') ∨ ∀ t n, P t n → behind s k t n)
    (hf : ∀ a k', (X never).at s k = .ok (a, k') → Keeps s k' (behind s k') c (fun due => F due a))
    : Keeps s k P c (fun due => X due >>= F due) := by
  refine hx.bind_known hf (.inl rfl) fun a k' ha t n m ws hP hcopies hend => ?_
  rcases Nat.lt_or_eq_of_le hcopies.le with hlt | rfl
  . exact hcopies.behind (hend rfl) hlt
  . obtain ⟨rfl, -⟩ := hcopies.target_eq (hend rfl)
    exact (hsaw.resolve_left fun h => Nat.lt_irrefl _ (h a k ha)) t n hP

theorem after (hx : Keeps s k P true X) [hX : Takes 1 (X never)]
    (hf : ∀ a k', Keeps s k' (behind s k') c (fun due => F due a))
    : Keeps s k P c (fun due => X due >>= F due) :=
  hx.bind_behind (.inl hX.advances) fun a k' _ => hf a k'

theorem after_saw [hP : Saw s k P] (hx : Keeps s k P true X)
    (hf : ∀ a k', Keeps s k' (behind s k') c (fun due => F due a))
    : Keeps s k P c (fun due => X due >>= F due) :=
  hx.bind_behind (.inr fun _ _ => hP.behind) fun a k' _ => hf a k'

/-! The rules for looking at tokens. -/

section

variable {F : (Nat → Bool) → α → Parser β} {f : TokenStream → Nat → α}

/-- A look at tokens that are the same in the copy. -/
theorem look (hx : ∀ t n, x.at t n = .ok (f t n, n)) (hf : ∀ t n, P t n → f t n = f s k)
    (h : Keeps s k P c (fun due => F due (f s k)))
    : Keeps s k P c (fun due => x >>= F due) := by
  refine h.congr (fun due => ?_) fun due t n hP => ?_
  . rw [Parser.bind_at, hx]
    rfl
  . rw [Parser.bind_at, hx, hf t n hP]
    rfl

end

section

variable [hP : Sees s k P]

theorem peek {F : (Nat → Bool) → Token → Parser β} (h : Keeps s k P c (fun due => F due (s.get k)))
    : Keeps s k P c (fun due => Parser.peek >>= F due) :=
  look (fun _ _ => Parser.peek_at) (fun _ _ => hP.get_eq) h

theorem location {F : (Nat → Bool) → Location → Parser β} (h : Keeps s k P c (fun due => F due (s.get k).loc))
    : Keeps s k P c (fun due => Parser.location >>= F due) :=
  look (fun _ _ => Parser.location_at) (fun _ _ h => by rw [hP.get_eq h]) h

theorem check {kind : TokenKind} {F : (Nat → Bool) → Bool → Parser β}
    (h : Keeps s k P c (fun due => F due (decide ((s.get k).kind = kind))))
    : Keeps s k P c (fun due => Parser.check kind >>= F due) :=
  look (fun _ _ => Parser.check_at _) (fun _ _ h => by rw [hP.get_eq h]) h

theorem checkSymbol {symbol : Symbol} {F : (Nat → Bool) → Bool → Parser β}
    (h : Keeps s k P c (fun due => F due (decide ((s.get k).kind = .symbol symbol))))
    : Keeps s k P c (fun due => Parser.checkSymbol symbol >>= F due) :=
  check h

theorem atEnd {F : (Nat → Bool) → Bool → Parser β}
    (h : Keeps s k P c (fun due => F due (decide ((s.get k).kind = .endOfInput))))
    : Keeps s k P c (fun due => Parser.atEnd >>= F due) :=
  check h

theorem lineBreakBefore [hP' : Saw s k P] {F : (Nat → Bool) → Bool → Parser β}
    (h : Keeps s k P c (fun due => F due (0 < k && (s.get (k - 1)).loc.line < (s.get k).loc.line)))
    : Keeps s k P c (fun due => Parser.lineBreakBefore >>= F due) := by
  refine look (fun _ _ => Parser.lineBreakBefore_at) (fun t n h => ?_) h
  obtain ⟨hn, hk, hlast⟩ := hP'.behind h
  rw [hP.get_eq h, hlast, decide_eq_true hn, decide_eq_true hk]

end

theorem previous [hP : Saw s k P] {F : (Nat → Bool) → Token → Parser β}
    (h : Keeps s k P c (fun due => F due (s.get (k - 1))))
    : Keeps s k P c (fun due => Parser.previous >>= F due) :=
  look (fun _ _ => Parser.previous_at) (fun _ _ h => (hP.behind h).2.2) h

/-- What follows is seen by a reader that takes a token, or that leaves semicolons out at its end if at all. -/
theorem seen_of (hsee : c = false ∨ ∀ a k', (X never).at s k = .ok (a, k') → k < k')
    (h : Keeps s k (next s k P) c X)
    : Keeps s k P c X := by
  intro a k' hk hok
  obtain ⟨hle, hsize, ws, hws⟩ := h a k' hk hok
  refine ⟨hle, hsize, ws, hws.congr (fun _ => rfl) fun t _ n m hcopies hend => ?_⟩
  rintro _ ⟨hP, due, rfl⟩
  have hfresh := hws.not_mem
  refine hws.writes t n m hcopies hend _ ⟨⟨hP, ?_⟩, due, rfl⟩
  rcases Nat.lt_or_eq_of_le hle with hlt | rfl
  . exact (hcopies.head hfresh hlt).2.1
  . obtain ⟨rfl, -⟩ := hcopies.target_eq hfresh
    rcases hsee with rfl | hsee
    . exact hend.resolve_right fun h => absurd h.1 nofun
    . exact absurd (hsee a k hok) (Nat.lt_irrefl _)

theorem seen (h : Keeps s k (next s k P) false X) : Keeps s k P false X :=
  seen_of (.inl rfl) h

theorem seen_taking [hX : Takes 1 (X never)] (h : Keeps s k (next s k P) c X) : Keeps s k P c X :=
  seen_of (.inr hX.advances) h

/-- A reader that may take nothing, and does so in front of a semicolon. -/
theorem tail {a : α} (hidle : Idles s k a (X never))
    (hstop : ∀ due t n, (t.get n).kind = .symbol .semicolon → (X due).at t n = .ok (a, n))
    (h : Keeps s k (next s k P) c X)
    : Keeps s k P c X := by
  intro b k' hk hok
  obtain ⟨hle, hsize, ws, hws⟩ := h b k' hk hok
  refine ⟨hle, hsize, ws, hws.congr (fun _ => rfl) fun t _ n m hcopies hend => ?_⟩
  rintro _ ⟨hP, due, rfl⟩
  have hfresh := hws.not_mem
  have hnext : t.get n = s.get k → (X due).at t n = .ok (b, m) := fun htoken =>
    hws.writes t n m hcopies hend _ ⟨⟨hP, htoken⟩, due, rfl⟩
  rcases Nat.lt_or_eq_of_le hle with hlt | rfl
  . exact hnext (hcopies.head hfresh hlt).2.1
  . obtain ⟨rfl, -⟩ := hcopies.target_eq hfresh
    rcases hend with htoken | ⟨-, hkind⟩
    . exact hnext htoken
    . rcases hidle with hidle | hadvances
      . cases hidle.symm.trans hok
        exact hstop due t n hkind
      . exact absurd (hadvances b k hok) (Nat.not_succ_le_self k)

/-! The rules for single tokens. -/

theorem token {a : α} (hkind : (s.get k).kind ≠ .endOfInput) (hx : ∀ t n, t.get n = s.get k → x.at t n = .ok (a, n + 1))
    : Keeps s k P c (fun _ => x) := by
  intro b k' _ hok
  cases (hx s k rfl).symm.trans hok
  refine ⟨Nat.le_succ k, s.lt_size_of_kind hkind, [], .token (fun _ => hx s k rfl) ?_⟩
  rintro t n _ htoken ⟨_, _, rfl⟩
  exact hx t n htoken

theorem advance (hkind : (s.get k).kind ≠ .endOfInput) : Keeps s k P c (fun _ => Parser.advance) :=
  token hkind fun t n htoken => by rw [Parser.advance_at, htoken, if_neg hkind]

theorem advance_eq_ok (hkind : (s.get k).kind ≠ .endOfInput) {a : Unit} {k' : Nat}
    (hok : Parser.advance.at s k = .ok (a, k'))
    : k' = k + 1 := by
  rw [Parser.advance_at, if_neg hkind] at hok
  cases hok
  rfl

theorem after_advance {F : (Nat → Bool) → Unit → Parser β} (hkind : (s.get k).kind ≠ .endOfInput)
    (h : Keeps s (k + 1) (behind s (k + 1)) c (fun due => F due ()))
    : Keeps s k P c (fun due => Parser.advance >>= F due) := by
  refine (advance hkind).bind_behind (.inl fun _ _ hok => ?_) fun _ k' hok => ?_
  . rw [advance_eq_ok hkind hok]
    exact Nat.lt_succ_self k
  . rw [advance_eq_ok hkind hok]
    exact h

/-- A token that need not be there. A semicolon that follows must not be taken for it. -/
theorem accept {kind : TokenKind} (hend : kind ≠ .endOfInput) (hc : c = false ∨ kind ≠ .symbol .semicolon)
    : Keeps s k P c (fun _ => Parser.accept kind) := by
  by_cases hkind : (s.get k).kind = kind
  . exact token (by rwa [hkind]) fun t n htoken => by rw [Parser.accept_at, htoken, if_pos hkind, if_neg hend]
  . intro a k' hk hok
    rw [Parser.accept_at, if_neg hkind] at hok
    cases hok
    refine ⟨Nat.le_refl k, hk, [], .look (fun _ => by rw [Parser.accept_at, if_neg hkind]) ?_⟩
    rintro t n _ hend ⟨_, _, rfl⟩
    rw [Parser.accept_at, if_neg ?_]
    rcases hend with htoken | ⟨hclosed, hsemicolon⟩
    . rwa [htoken]
    . rw [hsemicolon]
      rcases hc with rfl | hc
      . cases hclosed
      . exact hc.symm

theorem acceptSymbol {symbol : Symbol} (hc : c = false ∨ symbol ≠ .semicolon)
    : Keeps s k P c (fun _ => Parser.acceptSymbol symbol) :=
  accept (by rintro ⟨⟩) (hc.imp_right fun hne h => hne (TokenKind.symbol.inj h))

theorem acceptKeyword {word : Keyword} : Keeps s k P c (fun _ => Parser.acceptKeyword word) :=
  accept (by rintro ⟨⟩) (.inr (by rintro ⟨⟩))

theorem expect {kind : TokenKind} (hend : kind ≠ .endOfInput) : Keeps s k P c (fun _ => Parser.expect kind) := by
  by_cases hkind : (s.get k).kind = kind
  . exact token (by rwa [hkind]) fun t n htoken => by rw [Parser.expect_at, htoken, if_pos hkind, if_neg hend]
  . refine of_error fun a k' hok => ?_
    rw [Parser.expect_at, if_neg hkind] at hok
    cases hok

theorem expectSymbol {symbol : Symbol} : Keeps s k P c (fun _ => Parser.expectSymbol symbol) :=
  expect (by rintro ⟨⟩)

theorem expectKeyword {word : Keyword} : Keeps s k P c (fun _ => Parser.expectKeyword word) :=
  expect (by rintro ⟨⟩)

theorem name : Keeps s k P c (fun _ => Parser.name) := by
  by_cases hkind : ∃ text, (s.get k).kind = .name text
  . obtain ⟨text, hkind⟩ := hkind
    exact token (by rw [hkind]; rintro ⟨⟩) fun t n htoken => Parser.name_at (htoken ▸ hkind)
  . refine of_error fun a k' hok => ?_
    rw [Parser.name_at_other (not_exists.1 hkind)] at hok
    cases hok

theorem propertyName : Keeps s k P c (fun _ => Parser.propertyName) := by
  cases hkind : Parser.propertyText? (s.get k).kind with
  | some text =>
    refine token (fun hend => ?_) fun t n htoken => Parser.propertyName_at (htoken ▸ hkind)
    rw [hend] at hkind
    cases hkind
  | none =>
    refine of_error fun a k' hok => ?_
    rw [Parser.propertyName_at_other hkind] at hok
    cases hok

end Keeps
end ScriptHost
