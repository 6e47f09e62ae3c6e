import ScriptHost.Syntax.Script

/-!
This module contains the rules for readers of tokens that stand on one line: what a reader does with the
kinds of the tokens that come next. There is one rule for each way to look at a token or to take it, and
one for each way to repeat a reader.
-/

namespace ScriptHost

variable {α β γ : Type}

namespace TokenStream

/-- The kinds of the tokens from a position on. -/
def kindsFrom (s : TokenStream) (i : Nat) : List TokenKind :=
  (s.tokens.toList.drop i).map Token.kind

/-- All tokens stand on the same line. -/
def OneLine (s : TokenStream) : Prop :=
  ∀ t ∈ s.tokens, ∀ t' ∈ s.tokens, t.loc.line = t'.loc.line

variable {s : TokenStream} {i : Nat} {k : TokenKind} {ks : List TokenKind}

theorem get_of_kindsFrom (hks : s.kindsFrom i = k :: ks)
    : (s.get i).kind = k ∧ s.kindsFrom (i + 1) = ks ∧ i < s.tokens.size := by
  unfold kindsFrom at *
  cases hdrop : s.tokens.toList.drop i with
  | nil =>
    rw [hdrop] at hks
    cases hks
  | cons t ts =>
    have hi : i < s.tokens.toList.length := by
      apply Nat.lt_of_not_le
      intro hle
      rw [List.drop_eq_nil_of_le hle] at hdrop
      cases hdrop
    rw [List.drop_eq_getElem_cons hi] at hdrop
    obtain ⟨rfl, rfl⟩ := List.cons.inj hdrop
    rw [List.drop_eq_getElem_cons hi] at hks
    obtain ⟨rfl, rfl⟩ := List.cons.inj hks
    refine ⟨?_, rfl, by simpa using hi⟩
    unfold get
    rw [Array.getD_eq_getD_getElem?, Array.getElem?_eq_getElem (by simpa using hi)]
    rfl

theorem kind_get (s : TokenStream) (i : Nat) : (s.get i).kind = (s.kindsFrom i).headD .endOfInput := by
  cases hks : s.kindsFrom i with
  | cons k ks => exact (get_of_kindsFrom hks).1
  | nil =>
    have hsize : s.tokens.size ≤ i := by simpa [kindsFrom] using hks
    unfold get
    rw [Array.getD_eq_getD_getElem?, Array.getElem?_eq_none hsize]
    rfl

theorem OneLine.line_eq (hs : s.OneLine) {i j : Nat} (hi : i < s.tokens.size) (hj : j < s.tokens.size)
    : (s.get i).loc.line = (s.get j).loc.line := by
  have hget : ∀ {i}, i < s.tokens.size → s.get i ∈ s.tokens := by
    intro i hi
    unfold get
    rw [Array.getD_eq_getD_getElem?, Array.getElem?_eq_getElem hi]
    exact Array.getElem_mem hi
  exact hs _ (hget hi) _ (hget hj)

end TokenStream

/-- What a reader does at a position: a result and the position after it, or an error. -/
def Parser.at (x : Parser α) (s : TokenStream) (i : Nat) : Except SyntaxError (α × Nat) :=
  (x.run s).run i

/--
Wherever tokens of the kinds `ks` come next and all others, too, the reader has a result that satisfies `Q`
together with the kinds that are left. If `p` does not hold, it may also fail for too deep a nesting.
-/
def Reads (s : TokenStream) (p : Prop) (x : Parser α) (ks : List TokenKind)
    (Q : α → List TokenKind → Prop) : Prop :=
  ∀ i, s.kindsFrom i = ks →
    (∃ a j, x.at s i = .ok (a, j) ∧ Q a (s.kindsFrom j)) ∨
      (¬ p ∧ ∃ loc, x.at s i = .error ⟨.nestedTooDeep, loc⟩)

namespace Reads

variable {s : TokenStream} {p : Prop} {x : Parser α} {k k' : TokenKind} {ks ks' : List TokenKind}
  {Q Q' : α → List TokenKind → Prop} {R : β → List TokenKind → Prop}

theorem bind {f : α → Parser β} (hx : Reads s p x ks Q)
    (hf : ∀ a ks', Q a ks' → Reads s p (f a) ks' R)
    : Reads s p (x >>= f) ks R := by
  intro i hi
  have hbind : (x >>= f).at s i = (x.at s i).bind fun r => (f r.1).at s r.2 := rfl
  rw [hbind]
  rcases hx i hi with ⟨a, j, hok, ha⟩ | ⟨hp, loc, herror⟩
  . rw [hok]
    exact hf a _ ha j rfl
  . rw [herror]
    exact Or.inr ⟨hp, loc, rfl⟩

theorem pure {a : α} (ha : Q a ks) : Reads s p (pure a) ks Q := by
  intro i hi
  refine Or.inl ⟨a, i, rfl, ?_⟩
  rw [hi]
  exact ha

theorem mono (hx : Reads s p x ks Q) (hQ : ∀ a ks', Q a ks' → Q' a ks') : Reads s p x ks Q' := by
  intro i hi
  rcases hx i hi with ⟨a, j, hok, ha⟩ | hdeep
  . exact Or.inl ⟨a, j, hok, hQ _ _ ha⟩
  . exact Or.inr hdeep

/-! The rules for single tokens, each of them with what comes after it. -/

/-- A reader that takes nothing and never fails. -/
theorem look {f : α → Parser β} (g : Nat → α) (hx : ∀ i, x.at s i = .ok (g i, i))
    (hf : ∀ i, s.kindsFrom i = ks → Reads s p (f (g i)) ks R)
    : Reads s p (x >>= f) ks R := by
  intro i hi
  have hbind : (x >>= f).at s i = (x.at s i).bind fun r => (f r.1).at s r.2 := rfl
  rw [hbind, hx i]
  exact hf i hi i hi

theorem peek {f : Token → Parser β} (hf : ∀ t, t.kind = k → Reads s p (f t) (k :: ks) R)
    : Reads s p (Parser.peek >>= f) (k :: ks) R :=
  look _ (fun _ => rfl) fun _ hi => hf _ (TokenStream.get_of_kindsFrom hi).1

theorem peekSecond {f : Token → Parser β}
    (hf : ∀ t, t.kind = ks.headD .endOfInput → Reads s p (f t) (k :: ks) R)
    : Reads s p (Parser.peekSecond >>= f) (k :: ks) R := by
  refine look _ (fun _ => rfl) fun i hi => hf _ ?_
  rw [TokenStream.kind_get, (TokenStream.get_of_kindsFrom hi).2.1]

theorem previous {f : Token → Parser β} (hf : ∀ t, Reads s p (f t) ks R)
    : Reads s p (Parser.previous >>= f) ks R :=
  look _ (fun _ => rfl) fun _ _ => hf _

theorem location {f : Location → Parser β} (hf : ∀ loc, Reads s p (f loc) ks R)
    : Reads s p (Parser.location >>= f) ks R :=
  look _ (fun _ => rfl) fun _ _ => hf _

theorem check {f : Bool → Parser β} {kind : TokenKind}
    (hf : Reads s p (f (decide (k = kind))) (k :: ks) R)
    : Reads s p (Parser.check kind >>= f) (k :: ks) R := by
  refine look _ (fun _ => rfl) fun i hi => ?_
  rw [(TokenStream.get_of_kindsFrom hi).1]
  exact hf

theorem atEnd {f : Bool → Parser β} (hf : Reads s p (f (decide (k = .endOfInput))) (k :: ks) R)
    : Reads s p (Parser.atEnd >>= f) (k :: ks) R :=
  check hf

theorem advance {f : Unit → Parser β} (hk : k ≠ .endOfInput) (hf : Reads s p (f ()) ks R)
    : Reads s p (Parser.advance >>= f) (k :: ks) R := by
  intro i hi
  obtain ⟨hkind, hnext, -⟩ := TokenStream.get_of_kindsFrom hi
  have hat : Parser.advance.at s i = .ok ((), i + 1) := by
    change (if decide ((s.get i).kind = .endOfInput) then _ else _ : Parser Unit).at s i = _
    rw [hkind, if_neg (by simpa using hk)]
    rfl
  have hbind : (Parser.advance >>= f).at s i
      = (Parser.advance.at s i).bind fun r => (f r.1).at s r.2 := rfl
  rw [hbind, hat]
  exact hf (i + 1) hnext

theorem advanceSymbol {f : Unit → Parser β} {symbol : Symbol} (hf : Reads s p (f ()) ks R)
    : Reads s p (Parser.advance >>= f) (.symbol symbol :: ks) R :=
  advance nofun hf

theorem advanceKeyword {f : Unit → Parser β} {word : Keyword} (hf : Reads s p (f ()) ks R)
    : Reads s p (Parser.advance >>= f) (.keyword word :: ks) R :=
  advance nofun hf

theorem accept {f : Bool → Parser β} (hk : k ≠ .endOfInput) (hf : Reads s p (f true) ks R)
    : Reads s p (Parser.accept k >>= f) (k :: ks) R := by
  unfold Parser.accept
  rw [bind_assoc]
  apply check
  rw [if_pos (decide_eq_true rfl), bind_assoc]
  exact advance hk hf

theorem accept_other {f : Bool → Parser β} {kind : TokenKind} (hk : k ≠ kind)
    (hf : Reads s p (f false) (k :: ks) R)
    : Reads s p (Parser.accept kind >>= f) (k :: ks) R := by
  unfold Parser.accept
  rw [bind_assoc]
  apply check
  rw [if_neg (by simpa using hk)]
  exact hf

theorem expect {f : Unit → Parser β} (hk : k ≠ .endOfInput) (hf : Reads s p (f ()) ks R)
    : Reads s p (Parser.expect k >>= f) (k :: ks) R := by
  unfold Parser.expect
  rw [bind_assoc]
  exact accept hk hf

theorem acceptSymbol {f : Bool → Parser β} {symbol : Symbol} (hf : Reads s p (f true) ks R)
    : Reads s p (Parser.acceptSymbol symbol >>= f) (.symbol symbol :: ks) R :=
  accept nofun hf

theorem acceptSymbol_other {f : Bool → Parser β} {symbol : Symbol} (hk : k ≠ .symbol symbol)
    (hf : Reads s p (f false) (k :: ks) R)
    : Reads s p (Parser.acceptSymbol symbol >>= f) (k :: ks) R :=
  accept_other hk hf

theorem acceptKeyword_other {f : Bool → Parser β} {word : Keyword} (hk : k ≠ .keyword word)
    (hf : Reads s p (f false) (k :: ks) R)
    : Reads s p (Parser.acceptKeyword word >>= f) (k :: ks) R :=
  accept_other hk hf

theorem acceptKeyword {f : Bool → Parser β} {word : Keyword} (hf : Reads s p (f true) ks R)
    : Reads s p (Parser.acceptKeyword word >>= f) (.keyword word :: ks) R :=
  accept nofun hf

theorem expectSymbol {f : Unit → Parser β} {symbol : Symbol} (hf : Reads s p (f ()) ks R)
    : Reads s p (Parser.expectSymbol symbol >>= f) (.symbol symbol :: ks) R :=
  expect nofun hf

theorem expectKeyword {f : Unit → Parser β} {word : Keyword} (hf : Reads s p (f ()) ks R)
    : Reads s p (Parser.expectKeyword word >>= f) (.keyword word :: ks) R :=
  expect nofun hf

theorem name {f : String → Parser β} {name : String} (hf : Reads s p (f name) ks R)
    : Reads s p (Parser.name >>= f) (.name name :: ks) R := by
  unfold Parser.name
  rw [bind_assoc]
  apply peek
  intro t ht
  rw [ht]
  dsimp only
  rw [bind_assoc]
  exact advance nofun hf

theorem lineBreakBefore {f : Bool → Parser β} (hs : s.OneLine) (hf : Reads s p (f false) (k :: ks) R)
    : Reads s p (Parser.lineBreakBefore >>= f) (k :: ks) R := by
  refine look (fun i => decide (0 < i) && decide ((s.get (i - 1)).loc.line < (s.get i).loc.line))
    (fun _ => rfl) ?_
  intro i hi
  have hlt := (TokenStream.get_of_kindsFrom hi).2.2
  rw [hs.line_eq (Nat.lt_of_le_of_lt (Nat.sub_le i 1) hlt) hlt, decide_eq_false (Nat.lt_irrefl _),
    Bool.and_false]
  exact hf

theorem semicolon {f : Unit → Parser β} (hf : Reads s p (f ()) ks R)
    : Reads s p (Parser.semicolon >>= f) (.symbol .semicolon :: ks) R := by
  unfold Parser.semicolon
  rw [bind_assoc]
  exact accept nofun hf

theorem remaining {f : Nat → Parser β} (hf : ∀ n, ks.length < n → Reads s p (f n) ks R)
    : Reads s p (Parser.remaining >>= f) ks R := by
  refine look (fun i => s.tokens.size - i + 1) (fun _ => rfl) ?_
  rintro i rfl
  apply hf
  simp [TokenStream.kindsFrom]

/-! The rules for repetitions. A result is as it should be if `g` does not tell the difference. -/

variable {δ : Type} {tokens : α → List TokenKind} {g : α → δ} {xs : List α} {item : Parser α}

theorem many_go {more : Parser Bool} {sep : List TokenKind} {Next : List TokenKind → Prop}
    (hmore : ∀ x ∈ xs, ∀ ks,
      Reads s p more (sep ++ (tokens x ++ ks)) fun b ks' => b = true ∧ ks' = tokens x ++ ks)
    (hdone : Reads s p more ks fun b ks' => b = false ∧ ks' = ks)
    (hitem : ∀ x ∈ xs, ∀ ks, Next ks →
      Reads s p item (tokens x ++ ks) fun y ks' => g y = g x ∧ ks' = ks)
    (hks : Next ks) (hnext : ∀ x ∈ xs, ∀ ks, Next (sep ++ (tokens x ++ ks)))
    {fuel : Nat} (hfuel : xs.length < fuel) (acc : Array α)
    : Reads s p (Parser.many.go more item fuel acc) (xs.flatMap (fun x => sep ++ tokens x) ++ ks)
        fun ys ks' => ys.map g = acc.toList.map g ++ xs.map g ∧ ks' = ks := by
  induction xs generalizing fuel acc with
  | nil =>
    obtain ⟨fuel, rfl⟩ := Nat.exists_eq_succ_of_ne_zero (Nat.ne_of_gt hfuel)
    unfold Parser.many.go
    apply hdone.bind
    rintro b _ ⟨rfl, rfl⟩
    exact .pure ⟨by simp, rfl⟩
  | cons x xs ih =>
    obtain ⟨fuel, rfl⟩ := Nat.exists_eq_succ_of_ne_zero (Nat.ne_of_gt (Nat.zero_lt_of_lt hfuel))
    rw [List.flatMap_cons, List.append_assoc, List.append_assoc]
    unfold Parser.many.go
    apply (hmore x List.mem_cons_self _).bind
    rintro b _ ⟨rfl, rfl⟩
    rw [if_pos rfl]
    have htail : Next (xs.flatMap (fun x => sep ++ tokens x) ++ ks) := by
      cases xs with
      | nil => exact hks
      | cons x' xs =>
        rw [List.flatMap_cons, List.append_assoc, List.append_assoc]
        exact hnext x' (by simp) _
    apply (hitem x List.mem_cons_self _ htail).bind
    rintro y _ ⟨hy, rfl⟩
    apply (ih (fun x hx => hmore x (List.mem_cons_of_mem _ hx))
      (fun x hx => hitem x (List.mem_cons_of_mem _ hx))
      (fun x hx => hnext x (List.mem_cons_of_mem _ hx)) (Nat.lt_of_succ_lt_succ hfuel) (acc.push y)).mono
    rintro ys _ ⟨hys, rfl⟩
    exact ⟨by simp [hys, hy], rfl⟩

/-- Items one after another, with `sep` in front of each. Every item has a token. -/
theorem many {more : Parser Bool} {sep : List TokenKind} {Next : List TokenKind → Prop}
    (hmore : ∀ x ∈ xs, ∀ ks,
      Reads s p more (sep ++ (tokens x ++ ks)) fun b ks' => b = true ∧ ks' = tokens x ++ ks)
    (hdone : Reads s p more ks fun b ks' => b = false ∧ ks' = ks)
    (hitem : ∀ x ∈ xs, ∀ ks, Next ks →
      Reads s p item (tokens x ++ ks) fun y ks' => g y = g x ∧ ks' = ks)
    (hks : Next ks) (hnext : ∀ x ∈ xs, ∀ ks, Next (sep ++ (tokens x ++ ks)))
    (htokens : ∀ x ∈ xs, tokens x ≠ [])
    : Reads s p (Parser.many more item) (xs.flatMap (fun x => sep ++ tokens x) ++ ks)
        fun ys ks' => ys.map g = xs.map g ∧ ks' = ks := by
  unfold Parser.many
  apply remaining
  intro n hn
  have hlength : xs.length ≤ (xs.flatMap fun x => sep ++ tokens x).length := by
    clear hmore hitem hnext hn
    induction xs with
    | nil => exact Nat.zero_le _
    | cons x xs ih =>
      have hx := List.length_pos_iff.2 (htokens x List.mem_cons_self)
      have hxs := ih fun x hx => htokens x (List.mem_cons_of_mem _ hx)
      simp only [List.flatMap_cons, List.length_append, List.length_cons] at *
      omega
  rw [List.length_append] at hn
  apply (many_go hmore hdone hitem hks hnext (by omega) #[]).mono
  rintro ys _ ⟨hys, rfl⟩
  exact ⟨by simpa using hys, rfl⟩

end Reads

/-- Lists of tokens with commas between them. -/
def commas : List (List TokenKind) → List TokenKind
  | [] => []
  | ts :: tss => ts ++ tss.flatMap fun ts => .symbol .comma :: ts

def parameterTokens (params : List String) : List TokenKind :=
  commas (params.map fun param => [.name param])

namespace Reads

variable {s : TokenStream} {p : Prop} {k : TokenKind} {ks : List TokenKind} {δ : Type}
  {tokens : α → List TokenKind} {g : α → δ} {x : α} {xs : List α} {item : Parser α}

/-- An item that is followed by a comma or by the last token. -/
def ReadsItem (s : TokenStream) (p : Prop) (k : TokenKind) (tokens : α → List TokenKind) (g : α → δ)
    (item : Parser α) (x : α) : Prop :=
  ∀ k' ks, k' = .symbol .comma ∨ k' = k →
    Reads s p item (tokens x ++ k' :: ks) fun y ks' => g y = g x ∧ ks' = k' :: ks

theorem acceptSymbol_more (symbol : Symbol) (ks : List TokenKind)
    : Reads s p (Parser.acceptSymbol symbol) (.symbol symbol :: ks) fun b ks' => b = true ∧ ks' = ks := by
  have hpure : Parser.acceptSymbol symbol = Parser.acceptSymbol symbol >>= Pure.pure := by
    rw [bind_pure]
  rw [hpure]
  exact accept nofun (.pure ⟨rfl, rfl⟩)

theorem acceptSymbol_done {symbol : Symbol} (hk : k ≠ .symbol symbol) (ks : List TokenKind)
    : Reads s p (Parser.acceptSymbol symbol) (k :: ks) fun b ks' => b = false ∧ ks' = k :: ks := by
  have hpure : Parser.acceptSymbol symbol = Parser.acceptSymbol symbol >>= Pure.pure := by
    rw [bind_pure]
  rw [hpure]
  exact accept_other hk (.pure ⟨rfl, rfl⟩)

theorem commaSeparated (hk : k ≠ .symbol .comma)
    (hitem : ∀ y ∈ x :: xs, ReadsItem s p k tokens g item y) (htokens : ∀ y ∈ xs, tokens y ≠ [])
    : Reads s p (Parser.commaSeparated item) (commas ((x :: xs).map tokens) ++ k :: ks)
        fun ys ks' => ys.map g = (x :: xs).map g ∧ ks' = k :: ks := by
  let Next (ks : List TokenKind) : Prop := ∃ k' ks', ks = k' :: ks' ∧ (k' = .symbol .comma ∨ k' = k)
  have hread : ∀ y ∈ x :: xs, ∀ ks, Next ks →
      Reads s p item (tokens y ++ ks) fun z ks' => g z = g y ∧ ks' = ks := by
    rintro y hy _ ⟨k', ks', rfl, hk'⟩
    exact hitem y hy k' ks' hk'
  have hnext : ∀ ks, Next (.symbol .comma :: ks) := fun ks => ⟨_, ks, rfl, Or.inl rfl⟩
  have hend : Next (k :: ks) := ⟨k, ks, rfl, Or.inr rfl⟩
  have htail : Next (xs.flatMap (fun y => [.symbol .comma] ++ tokens y) ++ k :: ks) := by
    cases xs with
    | nil => exact hend
    | cons y ys => exact hnext _
  have hcommas : commas ((x :: xs).map tokens) ++ k :: ks
      = tokens x ++ (xs.flatMap (fun y => [.symbol .comma] ++ tokens y) ++ k :: ks) := by
    simp [commas, List.flatMap_map]
  rw [hcommas]
  unfold Parser.commaSeparated
  apply (hread x List.mem_cons_self _ htail).bind
  rintro y _ ⟨hy, rfl⟩
  apply (many (fun _ _ ks => acceptSymbol_more .comma _) (acceptSymbol_done hk ks)
    (fun y hy => hread y (List.mem_cons_of_mem _ hy)) hend (fun _ _ ks => hnext _) htokens).bind
  rintro ys _ ⟨hys, rfl⟩
  exact .pure ⟨by simp [hy, hys], rfl⟩

theorem listUntil_go {close : Symbol} (hclose : close ≠ .comma)
    (hitem : ∀ x ∈ xs, ReadsItem s p (.symbol close) tokens g item x)
    (hstart : ∀ x ∈ xs, ∃ k ks, tokens x = k :: ks ∧ k ≠ .symbol close)
    {fuel : Nat} (hfuel : xs.length < fuel) (acc : Array α)
    : Reads s p (Parser.listUntil.go close item fuel acc) (commas (xs.map tokens) ++ .symbol close :: ks)
        fun ys ks' => ys.map g = acc.toList.map g ++ xs.map g ∧ ks' = .symbol close :: ks := by
  induction xs generalizing fuel acc with
  | nil =>
    obtain ⟨fuel, rfl⟩ := Nat.exists_eq_succ_of_ne_zero (Nat.ne_of_gt hfuel)
    unfold Parser.listUntil.go
    apply check
    rw [if_pos (decide_eq_true rfl)]
    exact .pure ⟨by simp, rfl⟩
  | cons x xs ih =>
    obtain ⟨fuel, rfl⟩ := Nat.exists_eq_succ_of_ne_zero (Nat.ne_of_gt (Nat.zero_lt_of_lt hfuel))
    obtain ⟨k, ts, hts, hk⟩ := hstart x List.mem_cons_self
    have hx := hitem x List.mem_cons_self
    have hcheck : ∀ {ks : List TokenKind} {f : Bool → Parser (List α)}
        {R : List α → List TokenKind → Prop}, Reads s p (f false) (tokens x ++ ks) R →
        Reads s p (Parser.checkSymbol close >>= f) (tokens x ++ ks) R := by
      intro ks f R hf
      rw [hts] at hf ⊢
      apply check
      rw [decide_eq_false hk]
      exact hf
    have hcomma : (.symbol close : TokenKind) ≠ .symbol .comma := by simpa using hclose
    unfold Parser.listUntil.go
    cases xs with
    | nil =>
      have htokens : commas ([x].map tokens) ++ .symbol close :: ks = tokens x ++ .symbol close :: ks := by
        simp [commas]
      rw [htokens]
      apply hcheck
      rw [if_neg nofun]
      apply (hx _ ks (Or.inr rfl)).bind
      rintro y _ ⟨hy, rfl⟩
      dsimp only
      apply acceptSymbol_other hcomma
      exact .pure ⟨by simp [hy], rfl⟩
    | cons x' xs =>
      have htokens : commas ((x :: x' :: xs).map tokens) ++ .symbol close :: ks
          = tokens x ++ .symbol .comma :: (commas ((x' :: xs).map tokens) ++ .symbol close :: ks) := by
        simp [commas]
      rw [htokens]
      apply hcheck
      rw [if_neg nofun]
      apply (hx _ _ (Or.inl rfl)).bind
      rintro y _ ⟨hy, rfl⟩
      dsimp only
      apply acceptSymbol
      rw [if_pos rfl]
      apply (ih (fun x hx => hitem x (List.mem_cons_of_mem _ hx))
        (fun x hx => hstart x (List.mem_cons_of_mem _ hx)) (Nat.lt_of_succ_lt_succ hfuel)
        (acc.push y)).mono
      rintro ys _ ⟨hys, rfl⟩
      exact ⟨by simp [hys, hy], rfl⟩

theorem length_le_commas {tss : List (List TokenKind)} (htss : ∀ ts ∈ tss, ts ≠ [])
    : tss.length ≤ (commas tss).length := by
  cases tss with
  | nil => exact Nat.zero_le _
  | cons ts tss =>
    have hts := List.length_pos_iff.2 (htss ts List.mem_cons_self)
    have hrest : tss.length ≤ (tss.flatMap fun ts => TokenKind.symbol .comma :: ts).length := by
      rw [List.length_flatMap]
      clear htss hts
      induction tss with
      | nil => exact Nat.zero_le _
      | cons ts tss ih =>
        simp only [List.map_cons, List.sum_cons, List.length_cons] at *
        omega
    unfold commas
    rw [List.length_append, List.length_cons]
    omega

/-- Items with commas between them, up to a closing symbol that none of them starts with. -/
theorem listUntil {close : Symbol} (hclose : close ≠ .comma)
    (hitem : ∀ x ∈ xs, ReadsItem s p (.symbol close) tokens g item x)
    (hstart : ∀ x ∈ xs, ∃ k ks, tokens x = k :: ks ∧ k ≠ .symbol close)
    : Reads s p (Parser.listUntil close item) (commas (xs.map tokens) ++ .symbol close :: ks)
        fun ys ks' => ys.map g = xs.map g ∧ ks' = .symbol close :: ks := by
  unfold Parser.listUntil
  apply remaining
  intro n hn
  have hlength : xs.length ≤ (commas (xs.map tokens)).length := by
    rw [← xs.length_map (f := tokens)]
    apply length_le_commas
    intro ts hts
    obtain ⟨x, hx, rfl⟩ := List.mem_map.1 hts
    obtain ⟨k, ks, hks, -⟩ := hstart x hx
    rw [hks]
    exact nofun
  rw [List.length_append] at hn
  apply (listUntil_go hclose hitem hstart (by omega) #[]).mono
  rintro ys _ ⟨hys, rfl⟩
  exact ⟨by simpa using hys, rfl⟩

theorem parameterTokens_cons (param param' : String) (params : List String)
    : parameterTokens (param :: param' :: params)
        = .name param :: .symbol .comma :: parameterTokens (param' :: params) := by
  simp [parameterTokens, commas]

theorem contains_eq_false_of_nodup {done params : List String} {param : String}
    (hdistinct : (done ++ param :: params).Nodup)
    : done.contains param = false := by
  have hdisjoint := (List.nodup_append.1 hdistinct).2.2
  simpa using fun hmem => hdisjoint _ hmem _ List.mem_cons_self rfl

theorem parameters_go {params done : List String} {param : String}
    (hdistinct : (done ++ param :: params).Nodup) {fuel : Nat} (hfuel : params.length < fuel)
    : Reads s p (Grammar.parameters.go fuel done)
        (parameterTokens (param :: params) ++ .symbol .rightParen :: ks)
        fun result ks' => result = done ++ param :: params ∧ ks' = .symbol .rightParen :: ks := by
  obtain ⟨fuel, rfl⟩ := Nat.exists_eq_succ_of_ne_zero (Nat.ne_of_gt (Nat.zero_lt_of_lt hfuel))
  induction params generalizing done param fuel with
  | nil =>
    have htokens : parameterTokens [param] ++ .symbol .rightParen :: ks
        = .name param :: .symbol .rightParen :: ks := rfl
    rw [htokens]
    unfold Grammar.parameters.go
    apply location
    intro loc
    apply name
    dsimp only
    rw [contains_eq_false_of_nodup hdistinct, if_neg nofun]
    apply acceptSymbol_other (by decide)
    exact .pure ⟨rfl, rfl⟩
  | cons param' params ih =>
    have hfuel' := Nat.lt_of_succ_lt_succ hfuel
    obtain ⟨fuel, rfl⟩ := Nat.exists_eq_succ_of_ne_zero (Nat.ne_of_gt (Nat.zero_lt_of_lt hfuel'))
    have hdistinct' : ((done ++ [param]) ++ param' :: params).Nodup := by simpa using hdistinct
    rw [parameterTokens_cons]
    unfold Grammar.parameters.go
    apply location
    intro loc
    apply name
    dsimp only
    rw [contains_eq_false_of_nodup hdistinct, if_neg nofun]
    apply acceptSymbol
    rw [if_pos rfl]
    apply (ih hdistinct' fuel hfuel').mono
    rintro result _ ⟨rfl, rfl⟩
    exact ⟨by simp, rfl⟩

theorem parameters {params : List String} (hdistinct : params.Nodup)
    : Reads s p Grammar.parameters (parameterTokens params ++ .symbol .rightParen :: ks)
        fun result ks' => result = params ∧ ks' = .symbol .rightParen :: ks := by
  unfold Grammar.parameters
  cases params with
  | nil =>
    apply check
    rw [if_pos (decide_eq_true rfl)]
    exact .pure ⟨rfl, rfl⟩
  | cons param params =>
    have hlength : params.length < (parameterTokens (param :: params)).length := by
      have hle := @length_le_commas ((param :: params).map fun param => [TokenKind.name param])
        (by simp)
      rw [List.length_map] at hle
      exact hle
    obtain ⟨rest, hrest⟩ : ∃ rest,
        parameterTokens (param :: params) ++ .symbol .rightParen :: ks = .name param :: rest := ⟨_, rfl⟩
    have hgo := fun fuel (hfuel : params.length < fuel) =>
      @parameters_go s p ks params [] param hdistinct fuel hfuel
    rw [hrest] at hgo ⊢
    apply check
    rw [if_neg (by simp)]
    apply remaining
    intro n hn
    apply hgo
    rw [← hrest, List.length_append] at hn
    omega

end Reads
end ScriptHost
