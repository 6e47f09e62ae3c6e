import ScriptHost.Proofs.Counting.Rules
import ScriptHost.Proofs.Syntax.Takes
import ScriptHost.Proofs.Syntax.Yields

/-!
This module contains when a reader with counters agrees with one of the grammar: it gives the same result and the
counters as they were, or it fails with the same fault. It never has a mishap, and what it changes in the counters
it takes back also where it fails. There is one rule for each way to combine readers.
-/

namespace ScriptHost.Counting

variable {α β : Type} {s : TokenStream} {fuel n links : Nat} {jumps : Jumps}

/--
How a reader ends that has begun with the counters `c` and gives `links` nesting levels back at its end. Where it
fails, the levels of open chains may still be taken.
-/
inductive Ends (s : TokenStream) (c : Counters) (links : Nat)
    : Except SyntaxError (α × Nat) → Except Mishap (Except SyntaxError α × Counters) → Prop
  | ok {a : α} {j : Nat} (position_lt : j < s.tokens.size)
    : Ends s c links (.ok (a, j)) (.ok (.ok a, { c with position := j, nesting := c.nesting - links }))
  | error {e : SyntaxError} {c' : Counters} (within : c'.Within s) (nesting_le : c.nesting - links ≤ c'.nesting)
      (loops_eq : c'.loops = c.loops) (functions_eq : c'.functions = c.functions)
    : Ends s c links (.error e) (.ok (.error e, c'))

theorem Ends.of_moved {c : Counters} {i : Nat} {r : Except SyntaxError (α × Nat)}
    {r' : Except Mishap (Except SyntaxError α × Counters)} (h : Ends s { c with position := i } links r r')
    : Ends s c links r r' := by
  cases h with
  | ok hj => exact .ok hj
  | error hwithin hnesting hloops hfunctions => exact .error hwithin hnesting hloops hfunctions

/-- What is ended with one more level gives that one back, too. -/
theorem Ends.of_entered {c : Counters} {r : Except SyntaxError (α × Nat)}
    {r' : Except Mishap (Except SyntaxError α × Counters)}
    (h : Ends s { c with nesting := c.nesting + 1 } (links + 1) r r')
    : Ends s c links r r' := by
  cases h with
  | ok hj =>
    rw [Nat.add_sub_add_right]
    exact .ok hj
  | error hwithin hnesting hloops hfunctions =>
    exact .error hwithin (by simpa using hnesting) hloops hfunctions

/-- With the given counters, the two readers do the same. -/
def AgreesAt (s : TokenStream) (c : Counters) (links : Nat) (x : Reader α) (y : Parser α) : Prop :=
  Ends s c links (y.at s c.position) (x s c)

/-- The counters with which `n` levels are left, at least `links` are taken, and the given jumps are allowed. -/
structure Fits (s : TokenStream) (n links : Nat) (jumps : Jumps) (c : Counters) : Prop where
  position_lt : c.position < s.tokens.size
  nesting_add : c.nesting + n = Grammar.maxNesting
  links_le : links ≤ c.nesting
  jumps_eq : c.jumps = jumps

class Agrees (s : TokenStream) (n links : Nat) (jumps : Jumps) (x : Reader α) (y : Parser α) : Prop where
  agrees : ∀ {c}, Fits s n links jumps c → AgreesAt s c links x y

/-- There is fuel for one round with each token, and for calls in all nesting levels. -/
class Enough (s : TokenStream) (fuel : Nat) : Prop where
  size_lt : s.tokens.size < fuel
  maxNesting_lt : Grammar.maxNesting < fuel

namespace Fits

variable {c : Counters}

theorem moved (h : Fits s n links jumps c) {j : Nat} (hj : j < s.tokens.size)
    : Fits s n links jumps { c with position := j } :=
  ⟨hj, h.nesting_add, h.links_le, h.jumps_eq⟩

theorem unlinked (h : Fits s n links jumps c) : Fits s n 0 jumps c :=
  ⟨h.position_lt, h.nesting_add, Nat.zero_le _, h.jumps_eq⟩

theorem nesting_le (h : Fits s n links jumps c) : c.nesting ≤ Grammar.maxNesting := by
  have := h.nesting_add
  omega

theorem within (h : Fits s n links jumps c) : c.Within s :=
  ⟨h.position_lt, h.nesting_le⟩

theorem entered (h : Fits s (n + 1) links jumps c) : Fits s n (links + 1) jumps { c with nesting := c.nesting + 1 } :=
  ⟨h.position_lt, by have := h.nesting_add; simp only; omega, Nat.succ_le_succ h.links_le, h.jumps_eq⟩

end Fits

namespace Reader

variable {c : Counters}

theorem bind_eq (x : Reader α) (f : α → Reader β)
    : (x >>= f) s c = (x s c).bind fun (result, c') =>
      match result with
      | .ok a => f a s c'
      | .error e => .ok (.error e, c') := by
  show ((x s >>= fun a => f a s : ExceptT SyntaxError (StateT Counters (Except Mishap)) β) c) = _
  cases hx : x s c with
  | error m => simp [bind, ExceptT.bind, ExceptT.mk, StateT.bind, Except.bind, hx]
  | ok r =>
    obtain ⟨result, c'⟩ := r
    cases result with
    | ok a => simp only [bind, ExceptT.bind, ExceptT.mk, ExceptT.bindCont, StateT.bind, Except.bind, hx]
    | error e =>
      simp only [bind, ExceptT.bind, ExceptT.mk, ExceptT.bindCont, StateT.bind, Except.bind, hx]
      rfl

theorem change_eq {f : Counters → Except Mishap Counters} {c' : Counters} (hf : f c = .ok c') (hc' : c'.Within s)
    : change f s c = .ok (.ok (), c') := by
  show ((f c).bind fun c => if c.Within s then Except.ok (Except.ok (), c) else .error .outOfBounds) = _
  rw [hf]
  exact if_pos hc'

theorem ensuring_eq {x : Reader α} {f : Counters → Except Mishap Counters} {result : Except SyntaxError α}
    {c' c'' : Counters} (hx : x s c = .ok (result, c')) (hf : f c' = .ok c'') (hc'' : c''.Within s)
    : ensuring x f s c = .ok (result, c'') := by
  show ((x s c).bind fun r => (change f s r.2).bind fun r' => Except.ok (r.1, r'.2)) = _
  rw [hx]
  show ((change f s c').bind fun r' => Except.ok (result, r'.2)) = _
  rw [change_eq hf hc'']
  rfl

theorem minus_eq {n k : Nat} (h : k ≤ n) : minus n k = .ok (n - k) :=
  if_pos h

theorem leave_eq {levels : Nat} (h : levels ≤ c.nesting)
    : leave levels c = .ok { c with nesting := c.nesting - levels } := by
  unfold leave
  rw [minus_eq h]
  rfl

theorem token_eq (y : Parser α)
    : token y s c = (match y.at s c.position with
      | .ok (a, j) => do
        change fun c => return { c with position := j }
        return a
      | .error e => throw e : Reader α) s c :=
  rfl

theorem token_eq_ok {y : Parser α} {a : α} {j : Nat} (hy : y.at s c.position = .ok (a, j)) (hj : j < s.tokens.size)
    (hc : c.nesting ≤ Grammar.maxNesting)
    : token y s c = .ok (.ok a, { c with position := j }) := by
  have hmove : change (fun c => return { c with position := j }) s c = .ok (.ok (), { c with position := j }) :=
    change_eq rfl ⟨hj, hc⟩
  rw [token_eq, hy]
  show (change _ >>= fun _ => pure a : Reader α) s c = _
  rw [bind_eq, hmove]
  rfl

theorem token_eq_error {y : Parser α} {e : SyntaxError} (hy : y.at s c.position = .error e)
    : token y s c = .ok (.error e, c) := by
  rw [token_eq, hy]
  rfl

theorem enter_eq
    : enter s c = (if Grammar.maxNesting ≤ c.nesting then do
        Parser.fail .nestedTooDeep (← Parser.location)
        change fun c => return { c with nesting := c.nesting + 1 }
      else change fun c => return { c with nesting := c.nesting + 1 } : Reader Unit) s c :=
  rfl

theorem enter_eq_ok (hc : c.Within s) (h : c.nesting < Grammar.maxNesting)
    : enter s c = .ok (.ok (), { c with nesting := c.nesting + 1 }) := by
  rw [enter_eq, if_neg (Nat.not_le_of_lt h)]
  exact change_eq rfl ⟨hc.position_lt, h⟩

theorem enter_eq_error (hc : c.Within s) (h : Grammar.maxNesting ≤ c.nesting)
    : enter s c = .ok (.error ⟨.nestedTooDeep, (s.get c.position).loc⟩, c) := by
  have hlocation : (liftM Parser.location : Reader Location) s c = .ok (.ok (s.get c.position).loc, c) :=
    token_eq_ok Parser.location_at hc.position_lt hc.nesting_le
  rw [enter_eq, if_pos h, bind_eq, hlocation]
  rfl

theorem inLoop_eq (x : Reader α) (hc : c.Within s)
    : inLoop x s c = ensuring x (fun c' => return { c' with loops := ← minus c'.loops 1 }) s
      { c with loops := c.loops + 1 } := by
  have hchange : change (fun c => return { c with loops := c.loops + 1 }) s c =
      .ok (.ok (), { c with loops := c.loops + 1 }) := change_eq rfl ⟨hc.position_lt, hc.nesting_le⟩
  unfold inLoop
  rw [bind_eq, hchange]
  rfl

theorem inFunction_eq (x : Reader α) (hc : c.Within s)
    : inFunction x s c =
      ensuring x (fun c' => return { c' with loops := c.loops, functions := ← minus c'.functions 1 }) s
        { c with loops := 0, functions := c.functions + 1 } := by
  have hchange : change (fun c => return { c with loops := 0, functions := c.functions + 1 }) s c =
      .ok (.ok (), { c with loops := 0, functions := c.functions + 1 }) :=
    change_eq rfl ⟨hc.position_lt, hc.nesting_le⟩
  show (change _ >>= fun _ => ensuring x _ : Reader α) s c = _
  rw [bind_eq, hchange]
  rfl

end Reader

namespace AgreesAt

variable {c : Counters} {x : Reader α} {y : Parser α}

theorem bind {f : α → Reader β} {g : α → Parser β} (hx : AgreesAt s c 0 x y)
    (hf : ∀ a j, y.at s c.position = .ok (a, j) → j < s.tokens.size →
      AgreesAt s { c with position := j } links (f a) (g a))
    : AgreesAt s c links (x >>= f) (y >>= g) := by
  unfold AgreesAt at hx ⊢
  rw [Reader.bind_eq, Parser.bind_at]
  generalize hok : y.at s c.position = r at hx
  generalize x s c = r' at hx
  cases hx with
  | ok hj => exact (hf _ _ hok hj).of_moved
  | error hwithin hnesting hloops hfunctions =>
    exact .error hwithin (Nat.le_trans (Nat.sub_le _ _) hnesting) hloops hfunctions

theorem ite {x' : Reader α} {y' : Parser α} {p : Prop} [Decidable p] (hx : p → AgreesAt s c links x y)
    (hx' : ¬ p → AgreesAt s c links x' y')
    : AgreesAt s c links (if p then x else x') (if p then y else y') := by
  split
  . exact hx ‹_›
  . exact hx' ‹_›

theorem fail_bind {fault : SyntaxFault} {loc : Location} {f : β → Reader α} {g : β → Parser α} (hc : c.Within s)
    : AgreesAt s c links ((liftM (Parser.fail fault loc : Parser β) : Reader β) >>= f)
      (Parser.fail fault loc >>= g) :=
  .error hc (Nat.sub_le _ _) rfl rfl

/-- Both readers look at the next token. -/
theorem peek {f : Token → Reader α} {g : Token → Parser α} (hc : Fits s n links jumps c)
    (h : AgreesAt s c links (f (s.get c.position)) (g (s.get c.position)))
    : AgreesAt s c links ((liftM Parser.peek : Reader Token) >>= f) (Parser.peek >>= g) := by
  have hpeek : (liftM Parser.peek : Reader Token) s c = .ok (.ok (s.get c.position), c) :=
    Reader.token_eq_ok Parser.peek_at hc.position_lt hc.nesting_le
  unfold AgreesAt at h ⊢
  rw [Reader.bind_eq, hpeek]
  exact h

/-- The second reader looks at the next token once more. -/
theorem peek_again {g : Token → Parser α} (h : AgreesAt s c links x (g (s.get c.position)))
    : AgreesAt s c links x (Parser.peek >>= g) :=
  h

/-- A level is taken, if there is one. -/
theorem enter {rule : Grammar → Parser α} (hc : Fits s n links jumps c)
    (h : ∀ m, n = m + 1 → AgreesAt s { c with nesting := c.nesting + 1 } (links + 1) x
      (rule (Grammar.above (Grammar.ofLevels m))))
    : AgreesAt s c links (Reader.enter >>= fun _ => x) (Grammar.nested (Grammar.ofLevels n) rule) := by
  have hnesting := hc.nesting_add
  unfold AgreesAt
  rw [Reader.bind_eq]
  cases n with
  | zero =>
    rw [Reader.enter_eq_error hc.within (Nat.le_of_eq hnesting.symm)]
    exact .error hc.within (Nat.sub_le _ _) rfl rfl
  | succ m =>
    rw [Reader.enter_eq_ok hc.within (by omega)]
    exact (h m rfl).of_entered

/-- What is changed behind a reader is changed also where it fails. -/
theorem ensuring {loops functions : Nat} {f : Counters → Except Mishap Counters} (hc : c.Within s)
    (hx : AgreesAt s { c with loops, functions } 0 x y)
    (hf : ∀ c', c.nesting ≤ c'.nesting → c'.loops = loops → c'.functions = functions →
      f c' = .ok { c' with nesting := c'.nesting - links, loops := c.loops, functions := c.functions })
    : Ends s c links (y.at s c.position) (Reader.ensuring x f s { c with loops, functions }) := by
  have hle : ∀ {k}, k ≤ Grammar.maxNesting → k - links ≤ Grammar.maxNesting := Nat.le_trans (Nat.sub_le _ _)
  unfold AgreesAt at hx
  generalize hr : x s { c with loops, functions } = r at hx
  generalize y.at s c.position = r' at hx ⊢
  cases hx with
  | ok hj =>
    rw [Reader.ensuring_eq hr (hf _ (Nat.le_refl _) rfl rfl) ⟨hj, hle hc.nesting_le⟩]
    exact .ok hj
  | error hwithin hnesting hloops hfunctions =>
    have hwithin' := hle hwithin.nesting_le
    rw [Reader.ensuring_eq hr (hf _ hnesting hloops hfunctions) ⟨hwithin.position_lt, hwithin'⟩]
    exact .error ⟨hwithin.position_lt, hwithin'⟩ (Nat.sub_le_sub_right hnesting links) rfl rfl

end AgreesAt

namespace Agrees

variable {x x' : Reader α} {y y' : Parser α}

theorem bind (hx : Agrees s n 0 jumps x y) {f : α → Reader β} {g : α → Parser β}
    (hf : ∀ a, Agrees s n links jumps (f a) (g a))
    : Agrees s n links jumps (x >>= f) (y >>= g) where
  agrees hc := (hx.agrees hc.unlinked).bind fun a _ _ hj => (hf a).agrees (hc.moved hj)

instance [hx : Agrees s n 0 jumps x y] {f : α → Reader β} {g : α → Parser β}
    [hf : ∀ a, Agrees s n links jumps (f a) (g a)]
    : Agrees s n links jumps (x >>= f) (y >>= g) :=
  hx.bind hf

theorem ite {p : Prop} [Decidable p] (hx : Agrees s n links jumps x y) (hx' : Agrees s n links jumps x' y')
    : Agrees s n links jumps (if p then x else x') (if p then y else y') := by
  split
  . exact hx
  . exact hx'

instance {p : Prop} [Decidable p] [hx : Agrees s n links jumps x y] [hx' : Agrees s n links jumps x' y']
    : Agrees s n links jumps (if p then x else x') (if p then y else y') :=
  hx.ite hx'

instance {a : α} : Agrees s n 0 jumps (pure a) (pure a) where
  agrees hc := .ok hc.position_lt

instance {f : α → β} [hx : Agrees s n 0 jumps x y] : Agrees s n 0 jumps (f <$> x) (f <$> y) :=
  inferInstanceAs (Agrees s n 0 jumps (x >>= fun a => pure (f a)) (y >>= fun a => pure (f a)))

instance [Agrees s n 0 jumps x y] : Agrees s n 0 jumps (discard x) (discard y) :=
  inferInstanceAs (Agrees s n 0 jumps (_ <$> x) (_ <$> y))

/-- The readers of tokens. -/
theorem token (hy : ∀ {c a j}, Fits s n 0 jumps c → y.at s c.position = .ok (a, j) → j < s.tokens.size)
    : Agrees s n 0 jumps (liftM y) y where
  agrees {c} hc := by
    show Ends s c 0 (y.at s c.position) (Reader.token y s c)
    cases hok : y.at s c.position with
    | ok r =>
      have hj := hy hc hok
      rw [Reader.token_eq_ok hok hj hc.nesting_le]
      exact .ok hj
    | error e =>
      rw [Reader.token_eq_error hok]
      exact .error ⟨hc.position_lt, hc.nesting_le⟩ (Nat.sub_le _ _) rfl rfl

instance [hy : Safe s y] : Agrees s n 0 jumps (liftM y) y := by
  refine token fun {c a j} hc hok => ?_
  rcases hy.yields _ hc.position_lt with ⟨a', j', hok', hj, -⟩ | ⟨e, herror, -⟩
  . cases hok.symm.trans hok'
    exact hj
  . cases hok.symm.trans herror

instance {fault : SyntaxFault} {loc : Location}
    : Agrees s n 0 jumps (liftM (Parser.fail fault loc : Parser α)) (Parser.fail fault loc) :=
  token fun _ => nofun

instance : Agrees s n 0 jumps (liftM Parser.previous) Parser.previous :=
  token fun hc hok => by
    cases hok
    exact hc.position_lt

instance : Agrees s n 0 jumps (liftM (Parser.unexpected : Parser α)) Parser.unexpected :=
  token fun _ => nofun

/-- The levels of a chain are given back at its end. -/
theorem leave {a : α}
    : Agrees s n links jumps (Reader.change (Reader.leave links) >>= fun _ => pure a) (pure a) where
  agrees {c} hc := by
    have hleave := Reader.leave_eq hc.links_le
    unfold AgreesAt
    rw [Reader.bind_eq, Reader.change_eq hleave ⟨hc.position_lt, Nat.le_trans (Nat.sub_le _ _) hc.nesting_le⟩]
    exact .ok hc.position_lt

theorem nested {rule : Grammar → Parser α}
    (hx : ∀ m, n = m + 1 → Agrees s m 0 jumps x (rule (Grammar.above (Grammar.ofLevels m))))
    : Agrees s n 0 jumps (Reader.nested x) (Grammar.nested (Grammar.ofLevels n) rule) where
  agrees hc := .enter hc fun m hm => by
    subst hm
    have hc' := hc.entered
    refine AgreesAt.ensuring hc'.within ((hx m rfl).agrees hc'.unlinked) fun c' hle hloops hfunctions => ?_
    rw [Reader.leave_eq (Nat.le_trans hc'.links_le hle), ← hloops, ← hfunctions]

instance inLoop [hx : Agrees s n 0 { jumps with inLoop := true } x y] : Agrees s n 0 jumps (Reader.inLoop x) y where
  agrees {c} hc := by
    have hjumps := hc.jumps_eq
    have hc' : Fits s n 0 { jumps with inLoop := true } { c with loops := c.loops + 1 } :=
      ⟨hc.position_lt, hc.nesting_add, hc.links_le, by simp [← hjumps, Counters.jumps]⟩
    unfold AgreesAt
    rw [Reader.inLoop_eq x hc.within]
    refine AgreesAt.ensuring hc.within (hx.agrees hc') fun c' hle hloops hfunctions => ?_
    rw [hloops, Reader.minus_eq (Nat.succ_le_succ (Nat.zero_le _)), ← hfunctions]
    rfl

instance inFunction [hx : Agrees s n 0 { inFunction := true } x y] : Agrees s n 0 jumps (Reader.inFunction x) y where
  agrees {c} hc := by
    have hc' : Fits s n 0 { inFunction := true } { c with loops := 0, functions := c.functions + 1 } :=
      ⟨hc.position_lt, hc.nesting_add, hc.links_le, by simp [Counters.jumps]⟩
    unfold AgreesAt
    rw [Reader.inFunction_eq x hc.within]
    refine AgreesAt.ensuring hc.within (hx.agrees hc') fun c' hle hloops hfunctions => ?_
    rw [hfunctions, Reader.minus_eq (Nat.succ_le_succ (Nat.zero_le _))]
    rfl

/-- The jumps that are allowed are those that the counters tell. -/
theorem jumps_bind {f : Jumps → Reader α} (h : Agrees s n links jumps (f jumps) y)
    : Agrees s n links jumps (Reader.jumps >>= f) y where
  agrees {c} hc := by
    have hjumps : (Reader.jumps >>= f) s c = f c.jumps s c := rfl
    have := h.agrees hc
    unfold AgreesAt at this ⊢
    rw [hjumps, hc.jumps_eq]
    exact this

theorem of_assoc {z : Reader β} {f : α → Parser α} {g : α → Parser β}
    (h : Agrees s n links jumps z ((y >>= f) >>= g))
    : Agrees s n links jumps z (y >>= fun a => f a >>= g) := by
  rwa [bind_assoc] at h

/-- What follows two branches may be written in each of them. -/
theorem of_branch {z : Reader β} {found : Parser Bool} {f : α → Parser β}
    (h : Agrees s n links jumps z ((found >>= fun b => if b then y else y') >>= f))
    : Agrees s n links jumps z (found >>= fun b => if b then y >>= f else y' >>= f) := by
  have hbranch : (fun b => if b then y >>= f else y' >>= f) = fun b => (if b = true then y else y') >>= f := by
    funext b
    split <;> rfl
  rwa [bind_assoc, ← hbranch] at h

/-- There are no more levels left than there are at all. -/
theorem of_le (h : n ≤ Grammar.maxNesting → Agrees s n links jumps x y) : Agrees s n links jumps x y where
  agrees hc := (h (by have := hc.nesting_add; omega)).agrees hc

/-! The rules for loops. -/

variable {σ : Type} {F : Nat → σ → Reader α} {G : Nat → σ → Parser α}

/-- A round of two loops agrees if their rounds from a later token on do. -/
def Rounds (s : TokenStream) (n : Nat) (jumps : Jumps) (F : Nat → σ → Reader α) (G : Nat → σ → Parser α) : Prop :=
  ∀ rounds m c state, Fits s n 0 jumps c →
    (∀ state' j, c.position < j → j < s.tokens.size →
      AgreesAt s { c with position := j } 0 (F rounds state') (G m state')) →
    AgreesAt s c 0 (F (rounds + 1) state) (G (m + 1) state)

theorem Rounds.agreesAt (h : Rounds s n jumps F G) {m rounds : Nat} {c : Counters} {state : σ}
    (hc : Fits s n 0 jumps c) (hm : s.tokens.size < c.position + m) (hrounds : m ≤ rounds)
    : AgreesAt s c 0 (F rounds state) (G m state) := by
  -- There are more rounds than tokens left, and each round that goes on takes one of both.
  induction m generalizing rounds c state with
  | zero => exact absurd hc.position_lt (Nat.not_lt_of_lt hm)
  | succ m ih =>
    obtain ⟨rounds, rfl⟩ := Nat.exists_eq_add_of_le' (Nat.le_trans (Nat.succ_le_succ (Nat.zero_le m)) hrounds)
    refine h rounds m c state hc fun state' j hlt hj => ?_
    exact ih (hc.moved hj) (by simp only; omega) (Nat.le_of_succ_le_succ hrounds)

variable [henough : Enough s fuel]

theorem loop (h : Rounds s n jumps F G) (state : σ)
    : Agrees s n 0 jumps (F fuel state) (Parser.remaining >>= fun m => G m state) where
  agrees {c} hc := by
    have hsize := henough.size_lt
    have hrun : AgreesAt s c 0 (F fuel state) (G (s.tokens.size - c.position + 1) state) :=
      h.agreesAt hc (by omega) (by omega)
    exact hrun

variable {more : Reader Bool} {more' : Parser Bool} {item : Reader α} {item' : Parser α}

instance many [hmore : Agrees s n 0 jumps more more'] [hitem : Agrees s n 0 jumps item item']
    [htakes : Takes 0 more'] [htakes' : Takes 1 item']
    : Agrees s n 0 jumps (Reader.many fuel more item) (Parser.many more' item') := by
  refine loop (G := Parser.many.go more' item') (fun rounds m c items hc ih => ?_) #[]
  unfold Reader.many.go Parser.many.go
  refine (hmore.agrees hc).bind fun found i hfound hi => .ite (fun _ => ?_) fun _ => .ok hi
  refine (hitem.agrees (hc.moved hi)).bind fun a j ha hj => ih _ j ?_ hj
  exact Nat.lt_of_le_of_lt (htakes.advances _ _ hfound) (htakes'.advances _ _ ha)

instance commaSeparated [s.Ended] [Agrees s n 0 jumps item item'] [Takes 1 item']
    : Agrees s n 0 jumps (Reader.commaSeparated fuel item) (Parser.commaSeparated item') := by
  unfold Reader.commaSeparated Parser.commaSeparated
  infer_instance

instance listUntil [s.Ended] {close : Symbol} [hitem : Agrees s n 0 jumps item item'] [htakes : Takes 1 item']
    : Agrees s n 0 jumps (Reader.listUntil fuel close item) (Parser.listUntil close item') := by
  refine loop (G := Parser.listUntil.go close item') (fun rounds m c items hc ih => ?_) #[]
  unfold Reader.listUntil.go Parser.listUntil.go
  have hclose : Agrees s n 0 jumps (liftM (Parser.checkSymbol close)) (Parser.checkSymbol close) := inferInstance
  have hcomma : Agrees s n 0 jumps (liftM (Parser.acceptSymbol .comma)) (Parser.acceptSymbol .comma) := inferInstance
  refine (hclose.agrees hc).bind fun closed i hclosed hi => .ite (fun _ => .ok hi) fun _ => ?_
  refine (hitem.agrees (hc.moved hi)).bind fun a j ha hj => ?_
  refine (hcomma.agrees (hc.moved hj)).bind fun found k hfound hk => .ite (fun _ => ih _ k ?_ hk) fun _ => .ok hk
  have hlt : c.position < j := Nat.lt_of_le_of_lt (Takes.advances (n := 0) _ _ hclosed) (htakes.advances _ _ ha)
  exact Nat.lt_of_lt_of_le hlt (Takes.advances (n := 0) _ _ hfound)

instance parameters [s.Ended] : Agrees s n 0 jumps (Counting.parameters fuel) Grammar.parameters := by
  have hgo : Agrees s n 0 jumps (Counting.parameters.go fuel [])
      (Parser.remaining >>= fun m => Grammar.parameters.go m []) := by
    refine loop (fun rounds m c params hc ih => ?_) []
    have hlocation : Agrees s n 0 jumps (liftM Parser.location) Parser.location := inferInstance
    have hname : Agrees s n 0 jumps (liftM Parser.name) Parser.name := inferInstance
    have hcomma : Agrees s n 0 jumps (liftM (Parser.acceptSymbol .comma)) (Parser.acceptSymbol .comma) := inferInstance
    unfold Counting.parameters.go Grammar.parameters.go
    dsimp only
    refine (hlocation.agrees hc).bind fun loc i hloc hi => ?_
    cases hloc
    refine (hname.agrees (hc.moved hi)).bind fun param j hparam hj => .ite (fun _ => ?_) fun _ => ?_
    . exact .fail_bind (hc.moved hj).within
    refine (hcomma.agrees (hc.moved hj)).bind fun found k hfound hk => .ite (fun _ => ih _ k ?_ hk) fun _ => .ok hk
    have hlt : c.position < j := Takes.advances (n := 1) _ _ hparam
    exact Nat.lt_of_lt_of_le hlt (Takes.advances (n := 0) _ _ hfound)
  unfold Counting.parameters Grammar.parameters
  infer_instance

end Agrees

end ScriptHost.Counting
