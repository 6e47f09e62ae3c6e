import ScriptHost.Proofs.Syntax.Balance
import ScriptHost.Proofs.Syntax.Moved
import ScriptHost.Proofs.Token.Moved

/-!
This module contains what a reader does on a stretch of tokens that stands in two scripts: if it stays within
the stretch in the one script, it has the same result in the other one, unless it nests too deep there. In the
other script, a closing parenthesis follows.
-/

namespace ScriptHost

/-- A stretch of tokens in two scripts. -/
structure Window where
  source : TokenStream
  target : TokenStream
  /-- The position of the first token in the source. -/
  start : Nat
  /-- The position of the first token in the target. -/
  place : Nat
  width : Nat
  origin : Cursor
  goal : Cursor
  start_le : start + width ≤ source.tokens.size
  place_le : place + width ≤ target.tokens.size
  moved : ∀ k < width, Token.Moved origin goal (source.get (start + k)) (target.get (place + k))
  closed : (target.get (place + width)).kind = .symbol .rightParen
  knowsSource : source.KnowsArrows
  knowsTarget : target.KnowsArrows

namespace Window

attribute [instance] knowsSource knowsTarget

variable {α β γ δ : Type} (w : Window)

/--
If a reader has a result in the source, from the token `k` of the stretch up to one before the token `stop`,
the other one has a related result in the target, up to the same token, or it nests too deep.
-/
def Mirrors (stop k : Nat) (x : Parser α) (y : Parser β) (R : α → β → Prop) : Prop :=
  ∀ a k', x.at w.source (w.start + k) = .ok (a, w.start + k') → k' < stop →
    (∃ b, y.at w.target (w.place + k) = .ok (b, w.place + k') ∧ R a b) ∨
      ∃ loc, y.at w.target (w.place + k) = .error ⟨.nestedTooDeep, loc⟩

/-- The locations in the target that are those of the source, moved. -/
abbrev Moves : Location → Location → Prop :=
  Location.Moved w.origin.offset w.goal.offset

variable {w} {stop k : Nat}

theorem moves (hk : k < w.width) : w.Moves (w.source.get (w.start + k)).loc (w.target.get (w.place + k)).loc :=
  ⟨(w.moved k hk).len, (w.moved k hk).offset⟩

namespace Mirrors

variable {x : Parser α} {y : Parser β} {f : α → Parser γ} {g : β → Parser δ} {R : α → β → Prop}
  {S : γ → δ → Prop}

theorem mono {stop' : Nat} {R' : α → β → Prop} (h : w.Mirrors stop k x y R) (hstop : stop' ≤ stop)
    (hR : ∀ a b, R a b → R' a b)
    : w.Mirrors stop' k x y R' := by
  intro a k' hok hlt
  rcases h a k' hok (Nat.lt_of_lt_of_le hlt hstop) with ⟨b, hb, hab⟩ | hdeep
  . exact .inl ⟨b, hb, hR a b hab⟩
  . exact .inr hdeep

/-- A reader that takes `n` tokens at least begins so much before the end. -/
theorem of_lt (n : Nat) [hx : Takes n x] (h : k + n < stop → w.Mirrors stop k x y R)
    : w.Mirrors stop k x y R := by
  intro a k' hok hlt
  have := hx.advances a _ hok
  exact h (by omega) a k' hok hlt

/-- The one reader takes `m` tokens at least, and what follows takes `n`. -/
theorem bind (m n : Nat) [hm : Takes m x] [hn : ∀ a, Takes n (f a)] (hx : w.Mirrors (stop - n) k x y R)
    (hf : ∀ a b k', R a b → k + m ≤ k' → k' + n < stop → w.Mirrors stop k' (f a) (g b) S)
    : w.Mirrors stop k (x >>= f) (y >>= g) S := by
  intro c k' hok hlt
  obtain ⟨a, j, ha, hc⟩ := Parser.bind_eq_ok hok
  have hleft := hm.advances a j ha
  have hright := (hn a).advances c _ hc
  obtain ⟨i, rfl⟩ := Nat.exists_eq_add_of_le (show w.start ≤ j by omega)
  rw [Parser.bind_at]
  rcases hx a i ha (by omega) with ⟨b, hb, hab⟩ | ⟨loc, hdeep⟩
  . rw [hb]
    exact hf a b i hab (by omega) (by omega) c k' hc hlt
  . rw [hdeep]
    exact .inr ⟨loc, rfl⟩

/-- As before, for a rest that is too long to be found to take `n` tokens. -/
theorem bind_of (m n : Nat) [hm : Takes m x] (hn : ∀ a, Takes n (f a)) (hx : w.Mirrors (stop - n) k x y R)
    (hf : ∀ a b k', R a b → k + m ≤ k' → k' + n < stop → w.Mirrors stop k' (f a) (g b) S)
    : w.Mirrors stop k (x >>= f) (y >>= g) S :=
  bind m n hx hf

theorem pure {a : α} {b : β} (h : R a b) : w.Mirrors stop k (Pure.pure a) (Pure.pure b) R := by
  intro a' k' hok _
  have hk : a = a' ∧ w.start + k = w.start + k' := by simpa [Parser.pure_at] using hok
  obtain ⟨rfl, hk⟩ := hk
  obtain rfl : k = k' := by omega
  exact .inl ⟨b, rfl, h⟩

theorem fail_bind {fault : SyntaxFault} {loc : Location} {f : α → Parser γ} {y : Parser δ}
    : w.Mirrors stop k (Parser.fail fault loc >>= f) y S :=
  nofun

theorem unexpected : w.Mirrors stop k Parser.unexpected y R :=
  nofun

theorem ite {c c' : Prop} [Decidable c] [Decidable c'] {x' : Parser α} {y' : Parser β} (hc : c' ↔ c)
    (hx : c → w.Mirrors stop k x y R) (hx' : ¬ c → w.Mirrors stop k x' y' R)
    : w.Mirrors stop k (if c then x else x') (if c' then y else y') R := by
  by_cases h : c
  . rw [if_pos h, if_pos (hc.2 h)]
    exact hx h
  . rw [if_neg h, if_neg (mt hc.1 h)]
    exact hx' h

/-! The rules for single tokens, each of them with what comes after it. -/

/-- A step whose results are known in both scripts. -/
theorem step {a : α} {b : β} {m : Nat} (hx : x.at w.source (w.start + k) = .ok (a, w.start + m))
    (hy : y.at w.target (w.place + k) = .ok (b, w.place + m)) (h : w.Mirrors stop m (f a) (g b) S)
    : w.Mirrors stop k (x >>= f) (y >>= g) S := by
  intro c i hok hlt
  rw [Parser.bind_at, hx] at hok
  rw [Parser.bind_at, hy]
  exact h c i hok hlt

/-- A step that fails in the source. -/
theorem of_error {e : SyntaxError} {y : Parser δ} (hx : x.at w.source (w.start + k) = .error e)
    : w.Mirrors stop k (x >>= f) y S := by
  intro c i hok
  rw [Parser.bind_at, hx] at hok
  cases hok

section

variable (hk : k < w.width)
include hk

theorem kind_eq : (w.target.get (w.place + k)).kind = (w.source.get (w.start + k)).kind :=
  (w.moved k hk).kind

theorem lineBreak_iff (hpos : 0 < k)
    : (0 < w.place + k ∧
        (w.target.get (w.place + k - 1)).loc.line < (w.target.get (w.place + k)).loc.line) ↔
      0 < w.start + k ∧
        (w.source.get (w.start + k - 1)).loc.line < (w.source.get (w.start + k)).loc.line := by
  have hfirst := (w.moved (k - 1) (by omega)).line
  have hsecond := (w.moved k hk).line
  rw [← Nat.add_sub_assoc (show 1 ≤ k from hpos), ← Nat.add_sub_assoc (show 1 ≤ k from hpos)] at hfirst
  omega

theorem peek {f : Token → Parser γ} {g : Token → Parser δ}
    (h : ∀ kind loc loc', (w.source.get (w.start + k)).kind = kind → w.Moves loc loc' →
      w.Mirrors stop k (f ⟨kind, loc⟩) (g ⟨kind, loc'⟩) S)
    : w.Mirrors stop k (Parser.peek >>= f) (Parser.peek >>= g) S := by
  refine step Parser.peek_at Parser.peek_at ?_
  have := h _ _ _ rfl (moves hk)
  rwa [show Token.mk (w.source.get (w.start + k)).kind (w.target.get (w.place + k)).loc =
    w.target.get (w.place + k) by rw [← kind_eq hk]] at this

theorem location {f : Location → Parser γ} {g : Location → Parser δ}
    (h : ∀ loc loc', w.Moves loc loc' → w.Mirrors stop k (f loc) (g loc') S)
    : w.Mirrors stop k (Parser.location >>= f) (Parser.location >>= g) S :=
  step Parser.location_at Parser.location_at (h _ _ (moves hk))

theorem check {kind : TokenKind} {f : Bool → Parser γ} {g : Bool → Parser δ}
    (h : ∀ found, w.Mirrors stop k (f found) (g found) S)
    : w.Mirrors stop k (Parser.check kind >>= f) (Parser.check kind >>= g) S := by
  refine step (Parser.check_at _) (Parser.check_at _) ?_
  rw [kind_eq hk]
  exact h _

theorem checkSymbol {symbol : Symbol} {f : Bool → Parser γ} {g : Bool → Parser δ}
    (h : ∀ found, w.Mirrors stop k (f found) (g found) S)
    : w.Mirrors stop k (Parser.checkSymbol symbol >>= f) (Parser.checkSymbol symbol >>= g) S :=
  check hk h

theorem atEnd {f : Bool → Parser γ} {g : Bool → Parser δ}
    (h : ∀ found, w.Mirrors stop k (f found) (g found) S)
    : w.Mirrors stop k (Parser.atEnd >>= f) (Parser.atEnd >>= g) S :=
  check hk h

theorem lineBreakBefore (hpos : 0 < k) {f : Bool → Parser γ} {g : Bool → Parser δ}
    (h : ∀ found, w.Mirrors stop k (f found) (g found) S)
    : w.Mirrors stop k (Parser.lineBreakBefore >>= f) (Parser.lineBreakBefore >>= g) S := by
  refine step Parser.lineBreakBefore_at Parser.lineBreakBefore_at ?_
  simp only [← Bool.decide_and, lineBreak_iff hk hpos]
  exact h _

theorem advance {f : Unit → Parser γ} {g : Unit → Parser δ}
    (hkind : (w.source.get (w.start + k)).kind ≠ .endOfInput) (h : w.Mirrors stop (k + 1) (f ()) (g ()) S)
    : w.Mirrors stop k (Parser.advance >>= f) (Parser.advance >>= g) S := by
  refine step (m := k + 1) ?_ ?_ h
  . rw [Parser.advance_at, if_neg hkind, Nat.add_assoc]
  . rw [Parser.advance_at, kind_eq hk, if_neg hkind, Nat.add_assoc]

theorem accept (kind : TokenKind) (hend : kind ≠ .endOfInput) {f : Bool → Parser γ}
    {g : Bool → Parser δ}
    (htaken : w.Mirrors stop (k + 1) (f true) (g true) S) (hleft : w.Mirrors stop k (f false) (g false) S)
    : w.Mirrors stop k (Parser.accept kind >>= f) (Parser.accept kind >>= g) S := by
  have hat : ∀ {s i}, (Parser.accept kind).at s i =
      if (s.get i).kind = kind then .ok (true, i + 1) else .ok (false, i) := by
    intro s i
    rw [Parser.accept_at, if_neg hend]
  by_cases hkind : (w.source.get (w.start + k)).kind = kind
  . refine step (m := k + 1) ?_ ?_ htaken
    . rw [hat, if_pos hkind, Nat.add_assoc]
    . rw [hat, kind_eq hk, if_pos hkind, Nat.add_assoc]
  . refine step ?_ ?_ hleft
    . rw [hat, if_neg hkind]
    . rw [hat, kind_eq hk, if_neg hkind]

theorem acceptSymbol {symbol : Symbol} {f : Bool → Parser γ} {g : Bool → Parser δ}
    (htaken : w.Mirrors stop (k + 1) (f true) (g true) S) (hleft : w.Mirrors stop k (f false) (g false) S)
    : w.Mirrors stop k (Parser.acceptSymbol symbol >>= f) (Parser.acceptSymbol symbol >>= g) S :=
  accept hk (.symbol symbol) (by rintro ⟨⟩) htaken hleft

theorem acceptKeyword {word : Keyword} {f : Bool → Parser γ} {g : Bool → Parser δ}
    (htaken : w.Mirrors stop (k + 1) (f true) (g true) S) (hleft : w.Mirrors stop k (f false) (g false) S)
    : w.Mirrors stop k (Parser.acceptKeyword word >>= f) (Parser.acceptKeyword word >>= g) S :=
  accept hk (.keyword word) (by rintro ⟨⟩) htaken hleft

/-- A symbol that need not be there, and what is read if it is and if it is not. -/
theorem ifSymbol {symbol : Symbol} {x x' : Parser γ} {y y' : Parser δ} (htaken : w.Mirrors stop (k + 1) x y S)
    (hleft : w.Mirrors stop k x' y' S)
    : w.Mirrors stop k (Parser.acceptSymbol symbol >>= fun found => if found = true then x else x')
        (Parser.acceptSymbol symbol >>= fun found => if found = true then y else y') S :=
  acceptSymbol hk htaken hleft

theorem ifKeyword {word : Keyword} {x x' : Parser γ} {y y' : Parser δ} (htaken : w.Mirrors stop (k + 1) x y S)
    (hleft : w.Mirrors stop k x' y' S)
    : w.Mirrors stop k (Parser.acceptKeyword word >>= fun found => if found = true then x else x')
        (Parser.acceptKeyword word >>= fun found => if found = true then y else y') S :=
  acceptKeyword hk htaken hleft

theorem expect (kind : TokenKind) (hend : kind ≠ .endOfInput) {f : Unit → Parser γ}
    {g : Unit → Parser δ}
    (h : w.Mirrors stop (k + 1) (f ()) (g ()) S)
    : w.Mirrors stop k (Parser.expect kind >>= f) (Parser.expect kind >>= g) S := by
  by_cases hkind : (w.source.get (w.start + k)).kind = kind
  . refine step (m := k + 1) ?_ ?_ h
    . rw [Parser.expect_at, if_pos hkind, if_neg hend, Nat.add_assoc]
    . rw [Parser.expect_at, kind_eq hk, if_pos hkind, if_neg hend, Nat.add_assoc]
  . exact of_error (by rw [Parser.expect_at, if_neg hkind])

theorem expectSymbol {symbol : Symbol} {f : Unit → Parser γ} {g : Unit → Parser δ}
    (h : w.Mirrors stop (k + 1) (f ()) (g ()) S)
    : w.Mirrors stop k (Parser.expectSymbol symbol >>= f) (Parser.expectSymbol symbol >>= g) S :=
  expect hk (.symbol symbol) (by rintro ⟨⟩) h

theorem expectKeyword {word : Keyword} {f : Unit → Parser γ} {g : Unit → Parser δ}
    (h : w.Mirrors stop (k + 1) (f ()) (g ()) S)
    : w.Mirrors stop k (Parser.expectKeyword word >>= f) (Parser.expectKeyword word >>= g) S :=
  expect hk (.keyword word) (by rintro ⟨⟩) h

theorem name {f : String → Parser γ} {g : String → Parser δ}
    (h : ∀ text, w.Mirrors stop (k + 1) (f text) (g text) S)
    : w.Mirrors stop k (Parser.name >>= f) (Parser.name >>= g) S := by
  by_cases hkind : ∃ text, (w.source.get (w.start + k)).kind = .name text
  . obtain ⟨text, hkind⟩ := hkind
    exact step (Parser.name_at hkind) (Parser.name_at ((kind_eq hk).trans hkind)) (h text)
  . exact of_error (Parser.name_at_other (not_exists.1 hkind))

theorem propertyName {f : String → Parser γ} {g : String → Parser δ}
    (h : ∀ text, w.Mirrors stop (k + 1) (f text) (g text) S)
    : w.Mirrors stop k (Parser.propertyName >>= f) (Parser.propertyName >>= g) S := by
  cases hkind : Parser.propertyText? (w.source.get (w.start + k)).kind with
  | some text =>
    have hkind' : Parser.propertyText? (w.target.get (w.place + k)).kind = some text := by
      rw [kind_eq hk, hkind]
    exact step (Parser.propertyName_at hkind) (Parser.propertyName_at hkind') (h text)
  | none => exact of_error (Parser.propertyName_at_other hkind)

theorem semicolon (hpos : 0 < k) {f : Unit → Parser γ} {g : Unit → Parser δ}
    (htaken : w.Mirrors stop (k + 1) (f ()) (g ()) S) (hmissing : w.Mirrors stop k (f ()) (g ()) S)
    : w.Mirrors stop k (Parser.semicolon >>= f) (Parser.semicolon >>= g) S := by
  have hmissing_iff := or_congr (Iff.of_eq (congrArg (· = .symbol .rightBrace) (kind_eq hk)))
    (or_congr (Iff.of_eq (congrArg (· = .endOfInput) (kind_eq hk))) (lineBreak_iff hk hpos))
  by_cases hkind : (w.source.get (w.start + k)).kind = .symbol .semicolon
  . refine step (m := k + 1) ?_ ?_ htaken
    . rw [Parser.semicolon_at, if_pos hkind, Nat.add_assoc]
    . rw [Parser.semicolon_at, kind_eq hk, if_pos hkind, Nat.add_assoc]
  . by_cases hend : (w.source.get (w.start + k)).kind = .symbol .rightBrace ∨
        (w.source.get (w.start + k)).kind = .endOfInput ∨ 0 < w.start + k ∧
          (w.source.get (w.start + k - 1)).loc.line < (w.source.get (w.start + k)).loc.line
    . refine step ?_ ?_ hmissing
      . rw [Parser.semicolon_at, if_neg hkind, if_pos hend]
      . rw [Parser.semicolon_at, kind_eq hk, if_neg hkind, if_pos (by rwa [← kind_eq hk, hmissing_iff])]
    . exact of_error (by rw [Parser.semicolon_at, if_neg hkind, if_neg hend])

end

/-- The last token that was taken. -/
theorem previous (hpos : 0 < k) (hk : k ≤ w.width) {f : Token → Parser γ} {g : Token → Parser δ}
    (h : ∀ t t', w.Moves t.loc t'.loc → w.Mirrors stop k (f t) (g t') S)
    : w.Mirrors stop k (Parser.previous >>= f) (Parser.previous >>= g) S := by
  refine step Parser.previous_at Parser.previous_at (h _ _ ?_)
  have := w.moves (k := k - 1) (by omega)
  rwa [← Nat.add_sub_assoc hpos, ← Nat.add_sub_assoc hpos] at this

theorem remaining (_ : k ≤ w.width) {f : Nat → Parser γ} {g : Nat → Parser δ}
    (h : ∀ fuel fuel', w.width < k + fuel → w.width < k + fuel' → w.Mirrors stop k (f fuel) (g fuel') S)
    : w.Mirrors stop k (Parser.remaining >>= f) (Parser.remaining >>= g) S := by
  have := w.start_le
  have := w.place_le
  exact step Parser.remaining_at Parser.remaining_at (h _ _ (by omega) (by omega))

/-! The rules for repetition. What is repeated does not reach the end of the stretch. -/

theorem forall₂_push {acc : Array α} {acc' : Array β} {a : α} {b : β}
    (hacc : List.Forall₂ R acc.toList acc'.toList) (hab : R a b)
    : List.Forall₂ R (acc.push a).toList (acc'.push b).toList := by
  rw [Array.toList_push, Array.toList_push]
  exact List.rel_append hacc (.cons hab .nil)

section

variable (hitem : ∀ k, w.Mirrors w.width k x y R)
include hitem

theorem many_go [Takes 1 x] {more more' : Parser Bool} [Takes 0 more]
    (hmore : ∀ k < w.width, w.Mirrors w.width k more more' Eq) {fuel fuel' : Nat} (hfuel : w.width < k + fuel)
    (hfuel' : w.width < k + fuel') {acc : Array α} {acc' : Array β}
    (hacc : List.Forall₂ R acc.toList acc'.toList)
    : w.Mirrors w.width k (Parser.many.go more x fuel acc) (Parser.many.go more' y fuel' acc')
        (List.Forall₂ R) := by
  induction fuel generalizing fuel' k acc acc' with
  | zero =>
    have hgo : ∀ n acc, Takes 0 (Parser.many.go more x n acc) := Takes.many_go
    exact .of_lt 0 fun hk => by omega
  | succ fuel ih =>
    have hgo : ∀ n acc, Takes 0 (Parser.many.go more x n acc) := Takes.many_go
    refine .of_lt 0 fun hk => ?_
    obtain ⟨fuel', rfl⟩ : ∃ n, fuel' = n + 1 := ⟨fuel' - 1, by omega⟩
    unfold Parser.many.go
    refine .bind 0 0 (hmore k hk) fun found _ i heq hi _ => ?_
    subst heq
    refine .ite Iff.rfl (fun _ => ?_) fun _ => .pure hacc
    refine .bind 1 0 (hitem i) fun a b j hab hj _ => ?_
    exact ih (by omega) (by omega) (forall₂_push hacc hab)

theorem many [Takes 1 x] {more more' : Parser Bool} [Takes 0 more]
    (hmore : ∀ k < w.width, w.Mirrors w.width k more more' Eq)
    : w.Mirrors w.width k (Parser.many more x) (Parser.many more' y) (List.Forall₂ R) := by
  refine .of_lt 0 fun hk => .remaining (Nat.le_of_lt hk) fun fuel fuel' hfuel hfuel' => ?_
  exact many_go hitem hmore hfuel hfuel' .nil

theorem commaSeparated [Takes 1 x]
    : w.Mirrors w.width k (Parser.commaSeparated x) (Parser.commaSeparated y) (List.Forall₂ R) := by
  have hcomma : ∀ k < w.width,
      w.Mirrors w.width k (Parser.acceptSymbol .comma) (Parser.acceptSymbol .comma) Eq := by
    intro k hk
    rw [← bind_pure (Parser.acceptSymbol .comma)]
    exact .acceptSymbol hk (.pure rfl) (.pure rfl)
  refine .bind 1 0 (hitem k) fun a b i hab _ _ => .bind 0 0 (many hitem hcomma) fun as bs j has _ _ => ?_
  exact .pure (.cons hab has)

theorem listUntil_go [Takes 1 x] {close : Symbol} {fuel fuel' : Nat} (hfuel : w.width < k + fuel)
    (hfuel' : w.width < k + fuel') {acc : Array α} {acc' : Array β}
    (hacc : List.Forall₂ R acc.toList acc'.toList)
    : w.Mirrors w.width k (Parser.listUntil.go close x fuel acc) (Parser.listUntil.go close y fuel' acc')
        (List.Forall₂ R) := by
  induction fuel generalizing fuel' k acc acc' with
  | zero =>
    have hgo : ∀ n acc, Takes 0 (Parser.listUntil.go close x n acc) := Takes.listUntil_go
    exact .of_lt 0 fun hk => by omega
  | succ fuel ih =>
    have hgo : ∀ n acc, Takes 0 (Parser.listUntil.go close x n acc) := Takes.listUntil_go
    refine .of_lt 0 fun hk => ?_
    obtain ⟨fuel', rfl⟩ : ∃ n, fuel' = n + 1 := ⟨fuel' - 1, by omega⟩
    unfold Parser.listUntil.go
    refine .checkSymbol hk fun found => .ite Iff.rfl (fun _ => .pure hacc) fun _ => ?_
    refine .bind 1 0 (hitem k) fun a b i hab hi hlt => ?_
    have hpush := forall₂_push hacc hab
    exact .acceptSymbol hlt (ih (by omega) (by omega) hpush) (.pure hpush)

theorem listUntil [Takes 1 x] {close : Symbol}
    : w.Mirrors w.width k (Parser.listUntil close x) (Parser.listUntil close y) (List.Forall₂ R) := by
  refine .of_lt 0 fun hk => .remaining (Nat.le_of_lt hk) fun fuel fuel' hfuel hfuel' => ?_
  exact listUntil_go hitem hfuel hfuel' .nil

end

end Mirrors
end Window
end ScriptHost
