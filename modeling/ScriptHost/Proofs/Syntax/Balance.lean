import ScriptHost.Proofs.Syntax.Arrows
import ScriptHost.Proofs.Syntax.Takes

/-!
This module contains that every rule of the grammar takes as many closing parentheses as opening ones, each
of them behind its partner.
-/

namespace ScriptHost

/-- The kinds have partners for `d` parentheses that are open in front of them, and for all of their own. -/
def Closing : Nat → List TokenKind → Prop
  | 0, ks => Balanced ks
  | d + 1, ks => ∃ inner ks', ks = inner ++ .symbol .rightParen :: ks' ∧ Balanced inner ∧ Closing d ks'

section

variable {d : Nat} {k : TokenKind} {ks ks' : List TokenKind}

theorem Balanced.closing_append (hks : Balanced ks) (hks' : Closing d ks') : Closing d (ks ++ ks') := by
  cases d with
  | zero => exact .append hks hks'
  | succ d =>
    obtain ⟨inner, ks', rfl, hinner, hks'⟩ := hks'
    exact ⟨ks ++ inner, ks', by simp, .append hks hinner, hks'⟩

theorem Closing.cons (hleft : k ≠ .symbol .leftParen) (hright : k ≠ .symbol .rightParen)
    (hks : Closing d ks)
    : Closing d (k :: ks) :=
  (Balanced.cons hleft hright .nil).closing_append hks

theorem Closing.open (hks : Closing (d + 1) ks) : Closing d (.symbol .leftParen :: ks) := by
  obtain ⟨inner, ks', rfl, hinner, hks'⟩ := hks
  rw [← parens_append]
  exact (Balanced.parens hinner).closing_append hks'

theorem Closing.close (hks : Closing d ks) : Closing (d + 1) (.symbol .rightParen :: ks) :=
  ⟨[], ks, rfl, .nil, hks⟩

end

namespace TokenStream

/-- The kinds of the tokens from a position on, up to another one. -/
structure Between (s : TokenStream) (i j : Nat) (ks : List TokenKind) : Prop where
  kinds : s.kindsFrom i = ks ++ s.kindsFrom j
  length : i + ks.length = j

variable {s : TokenStream} {i j k : Nat} {ks ks' : List TokenKind}

theorem Between.nil : s.Between i i [] :=
  ⟨rfl, rfl⟩

theorem Between.append (h : s.Between i j ks) (h' : s.Between j k ks') : s.Between i k (ks ++ ks') := by
  obtain ⟨hkinds, rfl⟩ := h
  obtain ⟨hkinds', rfl⟩ := h'
  exact ⟨by rw [hkinds, hkinds', List.append_assoc], by rw [List.length_append, Nat.add_assoc]⟩

theorem between_succ (hkind : (s.get i).kind ≠ .endOfInput) : s.Between i (i + 1) [(s.get i).kind] := by
  cases hks : s.kindsFrom i with
  | nil =>
    rw [kind_get, hks] at hkind
    exact absurd rfl hkind
  | cons k ks =>
    obtain ⟨hk, hrest, -⟩ := get_of_kindsFrom hks
    exact ⟨by rw [hks, hk, hrest]; rfl, rfl⟩

end TokenStream

/--
From a position on, what the reader takes has partners for `d` parentheses that are open there, and for
all of its own.
-/
def Balances {α : Type} (s : TokenStream) (i d : Nat) (x : Parser α) : Prop :=
  ∀ a j, x.at s i = .ok (a, j) → ∃ ks, s.Between i j ks ∧ Closing d ks

/-- A reader that closes `d` parentheses besides its own wherever it has a result. -/
class Closes {α : Type} (d : Nat) (x : Parser α) : Prop where
  balances : ∀ {s i}, Balances s i d x

namespace Balances

variable {α β : Type} {s : TokenStream} {i d : Nat} {x y : Parser α}

theorem of_closes [hx : Closes d x] : Balances s i d x :=
  hx.balances

theorem ite {c : Prop} [Decidable c] (hx : Balances s i d x) (hy : Balances s i d y)
    : Balances s i d (if c then x else y) := by
  split
  . exact hx
  . exact hy

theorem bind {f : α → Parser β} (hx : Balances s i 0 x) (hf : ∀ a, Closes d (f a))
    : Balances s i d (x >>= f) := by
  intro b j hok
  obtain ⟨a, k, ha, hb⟩ := Parser.bind_eq_ok hok
  obtain ⟨ks, hks, hbalanced⟩ := hx a k ha
  obtain ⟨ks', hks', hclosing⟩ := (hf a).balances b j hb
  exact ⟨ks ++ ks', hks.append hks', hbalanced.closing_append hclosing⟩

theorem fail_bind {fault : SyntaxFault} {loc : Location} {f : α → Parser β}
    : Balances s i d (Parser.fail fault loc >>= f) :=
  nofun

theorem peek_bind {f : Token → Parser β} (hf : Balances s i d (f (s.get i)))
    : Balances s i d (Parser.peek >>= f) :=
  hf

theorem location_bind {f : Location → Parser β} (hf : Balances s i d (f (s.get i).loc))
    : Balances s i d (Parser.location >>= f) :=
  hf

/-- The rule for a token that is no parenthesis. -/
theorem advance {f : Unit → Parser β} (hleft : (s.get i).kind ≠ .symbol .leftParen)
    (hright : (s.get i).kind ≠ .symbol .rightParen) (hf : Closes d (f ()))
    : Balances s i d (Parser.advance >>= f) := by
  intro b j hok
  rw [Parser.bind_at, Parser.advance_at] at hok
  split at hok
  . exact hf.balances b j hok
  . next hkind =>
    obtain ⟨ks, hks, hclosing⟩ := hf.balances b j hok
    exact ⟨_, (TokenStream.between_succ hkind).append hks, hclosing.cons hleft hright⟩

theorem advance_leftParen {f : Unit → Parser β} (hkind : (s.get i).kind = .symbol .leftParen)
    (hf : Closes (d + 1) (f ()))
    : Balances s i d (Parser.advance >>= f) := by
  intro b j hok
  have hne : (s.get i).kind ≠ .endOfInput := by simp [hkind]
  rw [Parser.bind_at, Parser.advance_at, if_neg hne] at hok
  obtain ⟨ks, hks, hclosing⟩ := hf.balances b j hok
  refine ⟨_, (TokenStream.between_succ hne).append hks, ?_⟩
  rw [hkind]
  exact hclosing.open

end Balances

/-- A symbol other than the parentheses. -/
class Symbol.Plain (symbol : Symbol) : Prop where
  ne_leftParen : symbol ≠ .leftParen
  ne_rightParen : symbol ≠ .rightParen

namespace Symbol.Plain

instance : Plain .comma := ⟨nofun, nofun⟩
instance : Plain .colon := ⟨nofun, nofun⟩
instance : Plain .semicolon := ⟨nofun, nofun⟩
instance : Plain .question := ⟨nofun, nofun⟩
instance : Plain .arrow := ⟨nofun, nofun⟩
instance : Plain .assign := ⟨nofun, nofun⟩
instance : Plain .leftBrace := ⟨nofun, nofun⟩
instance : Plain .rightBrace := ⟨nofun, nofun⟩
instance : Plain .leftBracket := ⟨nofun, nofun⟩
instance : Plain .rightBracket := ⟨nofun, nofun⟩

end Symbol.Plain

namespace Closes

variable {α β : Type} {d : Nat} {x y : Parser α}

theorem of_peek {f : Token → Parser α} (hf : ∀ s i, Balances s i d (f (s.get i)))
    : Closes d (Parser.peek >>= f) where
  balances := hf _ _

theorem of_look (g : TokenStream → Nat → α) (hx : ∀ s i, x.at s i = .ok (g s i, i)) : Closes 0 x where
  balances a j hok := by
    cases (hx _ _).symm.trans hok
    exact ⟨[], .nil, Balanced.nil⟩

instance {a : α} : Closes 0 (pure a) := of_look (fun _ _ => a) fun _ _ => rfl
instance : Closes 0 Parser.peek := of_look _ fun _ _ => rfl
instance : Closes 0 Parser.previous := of_look _ fun _ _ => rfl
instance : Closes 0 Parser.location := of_look _ fun _ _ => rfl
instance : Closes 0 Parser.atEnd := of_look _ fun _ _ => rfl
instance (kind : TokenKind) : Closes 0 (Parser.check kind) := of_look _ fun _ _ => rfl
instance (symbol : Symbol) : Closes 0 (Parser.checkSymbol symbol) := of_look _ fun _ _ => rfl
instance : Closes 0 Parser.lineBreakBefore := of_look _ fun _ _ => rfl
instance : Closes 0 Parser.remaining := of_look _ fun _ _ => rfl
instance : Closes 0 Grammar.atArrowFunction := of_look _ fun _ _ => Parser.atArrowFunction_at

theorem after [hx : Closes 0 x] {f : α → Parser β} (hf : ∀ a, Closes d (f a)) : Closes d (x >>= f) where
  balances := .bind hx.balances hf

instance [Closes 0 x] {f : α → Parser β} [hf : ∀ a, Closes d (f a)] : Closes d (x >>= f) := after hf

instance {f : α → β} [Closes 0 x] : Closes 0 (f <$> x) :=
  inferInstanceAs (Closes 0 (x >>= fun a => pure (f a)))

instance [Closes 0 x] : Closes 0 (discard x) :=
  inferInstanceAs (Closes 0 (_ <$> x))

theorem ite {c : Prop} [Decidable c] (hx : Closes d x) (hy : Closes d y) : Closes d (if c then x else y) where
  balances := .ite hx.balances hy.balances

instance {c : Prop} [Decidable c] [hx : Closes d x] [hy : Closes d y] : Closes d (if c then x else y) :=
  ite hx hy

instance {fault : SyntaxFault} {loc : Location} : Closes d (Parser.fail fault loc : Parser α) where
  balances := nofun

instance : Closes d (Parser.unexpected : Parser α) where
  balances := nofun

theorem accept {kind : TokenKind} (hend : kind ≠ .endOfInput) (hleft : kind ≠ .symbol .leftParen)
    (hright : kind ≠ .symbol .rightParen)
    : Closes 0 (Parser.accept kind) where
  balances a j hok := by
    rw [Parser.accept_at] at hok
    split at hok
    . next hkind =>
      cases hok
      subst hkind
      exact ⟨_, TokenStream.between_succ hend, Balanced.cons hleft hright .nil⟩
    . cases hok
      exact ⟨[], .nil, Balanced.nil⟩

theorem expect {kind : TokenKind} (hend : kind ≠ .endOfInput) (hleft : kind ≠ .symbol .leftParen)
    (hright : kind ≠ .symbol .rightParen)
    : Closes 0 (Parser.expect kind) := by
  have := accept hend hleft hright
  unfold Parser.expect
  infer_instance

instance (symbol : Symbol) [h : symbol.Plain] : Closes 0 (Parser.acceptSymbol symbol) :=
  accept nofun (by simpa using h.ne_leftParen) (by simpa using h.ne_rightParen)

instance (word : Keyword) : Closes 0 (Parser.acceptKeyword word) :=
  accept nofun nofun nofun

instance (symbol : Symbol) [h : symbol.Plain] : Closes 0 (Parser.expectSymbol symbol) :=
  expect nofun (by simpa using h.ne_leftParen) (by simpa using h.ne_rightParen)

instance (word : Keyword) : Closes 0 (Parser.expectKeyword word) :=
  expect nofun nofun nofun

instance {f : Unit → Parser α} [hf : Closes (d + 1) (f ())]
    : Closes d (Parser.expectSymbol .leftParen >>= f) where
  balances b j hok := by
    rename_i s i
    rw [Parser.bind_at, Parser.expectSymbol_at] at hok
    split at hok
    . next hkind =>
      obtain ⟨ks, hks, hclosing⟩ := hf.balances b j hok
      refine ⟨_, (TokenStream.between_succ (by simp [hkind])).append hks, ?_⟩
      rw [hkind]
      exact hclosing.open
    . cases hok

instance {f : Unit → Parser α} [hf : Closes d (f ())]
    : Closes (d + 1) (Parser.expectSymbol .rightParen >>= f) where
  balances b j hok := by
    rename_i s i
    rw [Parser.bind_at, Parser.expectSymbol_at] at hok
    split at hok
    . next hkind =>
      obtain ⟨ks, hks, hclosing⟩ := hf.balances b j hok
      refine ⟨_, (TokenStream.between_succ (by simp [hkind])).append hks, ?_⟩
      rw [hkind]
      exact hclosing.close
    . cases hok

theorem accept_leftParen (hx : Closes (d + 1) x) (hy : Closes d y)
    : Closes d (Parser.acceptSymbol .leftParen >>= fun found => if found = true then x else y) where
  balances b j hok := by
    rename_i s i
    rw [Parser.bind_at, Parser.acceptSymbol_at] at hok
    split at hok
    . next hkind =>
      obtain ⟨ks, hks, hclosing⟩ := hx.balances b j hok
      refine ⟨_, (TokenStream.between_succ (by simp [hkind])).append hks, ?_⟩
      rw [hkind]
      exact hclosing.open
    . exact hy.balances b j hok

instance : Closes 0 Parser.semicolon := by
  unfold Parser.semicolon
  infer_instance

instance : Closes 0 Parser.name := by
  refine .of_peek fun s i => ?_
  split
  . next hkind => exact .advance (by simp [hkind]) (by simp [hkind]) inferInstance
  . exact .of_closes

instance : Closes 0 Parser.propertyName := by
  refine .of_peek fun s i => ?_
  split
  . next hkind => exact .advance (by simp [hkind]) (by simp [hkind]) inferInstance
  . next hkind => exact .advance (by simp [hkind]) (by simp [hkind]) inferInstance
  . exact .of_closes

theorem many_go {more : Parser Bool} [Closes 0 more] [Closes 0 x] (fuel : Nat) (acc : Array α)
    : Closes 0 (Parser.many.go more x fuel acc) := by
  induction fuel generalizing acc with
  | zero => exact inferInstanceAs (Closes 0 (pure _))
  | succ fuel ih =>
    unfold Parser.many.go
    infer_instance

instance {more : Parser Bool} [Closes 0 more] [Closes 0 x] : Closes 0 (Parser.many more x) :=
  after fun _ => many_go _ _

instance [Closes 0 x] : Closes 0 (Parser.commaSeparated x) := by
  unfold Parser.commaSeparated
  infer_instance

theorem listUntil_go {close : Symbol} [Closes 0 x] (fuel : Nat) (acc : Array α)
    : Closes 0 (Parser.listUntil.go close x fuel acc) := by
  induction fuel generalizing acc with
  | zero => exact inferInstanceAs (Closes 0 (pure _))
  | succ fuel ih =>
    unfold Parser.listUntil.go
    infer_instance

instance {close : Symbol} [Closes 0 x] : Closes 0 (Parser.listUntil close x) :=
  after fun _ => listUntil_go _ _

end Closes

namespace Grammar

/-- None of the operators of the level is a parenthesis. -/
structure PlainLevel (level : Precedence) : Prop where
  leftParen : binaryOp? level (.symbol .leftParen) = none
  rightParen : binaryOp? level (.symbol .rightParen) = none

theorem plain_precedences : ∀ level ∈ precedences, PlainLevel level := by
  intro level hlevel
  simp only [precedences, List.mem_cons, List.not_mem_nil, or_false] at hlevel
  rcases hlevel with rfl | rfl | rfl | rfl | rfl | rfl <;> exact ⟨rfl, rfl⟩

/-- What the rules take that run with `n` levels of nesting left is balanced. -/
class Even (n : Nat) : Prop where
  expression : Closes 0 (expression (ofLevels n))
  nestedStatement : ∀ jumps, Closes 0 (nestedStatement (ofLevels n) jumps)
  unary : Closes 0 (nested (ofLevels n) fun g => g.unary)
  operand : ∀ level tighter op loc left, PlainLevel level → (∀ level ∈ tighter, PlainLevel level) →
    Closes 0 (nested (ofLevels n) fun g => g.operand level tighter op loc left)
  access : ∀ object s i, (s.get i).kind ≠ .symbol .rightParen →
    Balances s i 0 (nested (ofLevels n) fun g => g.access object)

attribute [instance] Even.expression Even.nestedStatement Even.unary

namespace Closes

variable {n : Nat} [Even n]

instance : Closes 0 inBlock := by
  unfold inBlock
  infer_instance

instance (jumps : Jumps) : Closes 0 (braced (ofLevels n) jumps) := by
  unfold braced
  infer_instance

theorem parameters_go (fuel : Nat) (params : List String) : Closes 0 (parameters.go fuel params) := by
  induction fuel generalizing params with
  | zero => exact inferInstanceAs (Closes 0 (pure _))
  | succ fuel ih =>
    unfold parameters.go
    dsimp only
    infer_instance

instance : Closes 0 parameters := by
  have := parameters_go
  unfold parameters
  infer_instance

instance (named : Bool) : Closes 0 (functionLiteral (ofLevels n) named) := by
  unfold functionLiteral
  dsimp only
  refine .after fun start => .after fun _ => .after fun token => ?_
  split <;> infer_instance

instance : Closes 0 (arrayLiteral (ofLevels n)) := by
  unfold arrayLiteral
  infer_instance

instance : Closes 0 propertyKey := by
  refine .of_peek fun s i => ?_
  split
  . next hkind => exact .advance (by simp [hkind]) (by simp [hkind]) inferInstance
  . next hkind => exact .advance (by simp [hkind]) (by simp [hkind]) inferInstance
  . exact .of_closes
  . exact .of_closes

instance : Closes 0 (property (ofLevels n)) := by
  unfold property
  infer_instance

instance : Closes 0 (objectLiteral (ofLevels n)) := by
  unfold objectLiteral
  infer_instance

instance : Closes 0 (primary (ofLevels n)) := by
  refine .of_peek fun s i => ?_
  split
  . next e hliteral =>
    refine .advance ?_ ?_ inferInstance
    . intro hkind
      simp [literal?, hkind] at hliteral
    . intro hkind
      simp [literal?, hkind] at hliteral
  . split
    . exact .of_closes
    . exact .of_closes
    . exact .of_closes
    . next hkind => exact .advance_leftParen hkind inferInstance
    . exact .of_closes

instance (object : Expr) : Closes 0 (accesses (ofLevels n) object) := by
  refine .of_peek fun s i => ?_
  split
  . next hkind => exact Even.access object s i (by simp [hkind])
  . next hkind => exact Even.access object s i (by simp [hkind])
  . next hkind => exact Even.access object s i (by simp [hkind])
  . exact .of_closes

theorem accessRule {s : TokenStream} {i : Nat} (object : Expr) (hkind : (s.get i).kind ≠ .symbol .rightParen)
    : Balances s i 0 (accessRule (ofLevels n) object) := by
  unfold Grammar.accessRule
  refine .peek_bind ?_
  generalize ht : s.get i = t at hkind ⊢
  obtain ⟨kind, loc⟩ := t
  by_cases hleft : kind = .symbol .leftParen
  . subst hleft
    exact .advance_leftParen (by rw [ht]) inferInstance
  . refine .advance (by rwa [ht]) (by rwa [ht]) ?_
    dsimp only
    split
    . exact absurd rfl hleft
    . infer_instance
    . infer_instance

instance : Closes 0 (updated (ofLevels n)) := by
  unfold updated
  dsimp only
  refine .after fun e => .after fun operand => .after fun newline => .ite ?_ (.of_peek fun s i => ?_)
  . infer_instance
  . split
    . exact .of_closes
    . next op hop =>
      refine .ite (.advance ?_ ?_ inferInstance) .fail_bind
      . intro hkind
        rw [hkind] at hop
        cases hop
      . intro hkind
        rw [hkind] at hop
        cases hop

instance : Closes 0 (unaryRule (ofLevels n)) := by
  refine .of_peek fun s i => ?_
  split
  . exact .of_closes
  . next op hop =>
    dsimp only
    refine .advance ?_ ?_ inferInstance
    . intro hkind
      rw [hkind] at hop
      cases hop
    . intro hkind
      rw [hkind] at hop
      cases hop

theorem operators {level : Precedence} {tighter : List Precedence} (hlevel : PlainLevel level)
    (htighter : ∀ level ∈ tighter, PlainLevel level) (left : Expr)
    : Closes 0 (operators (ofLevels n) level tighter left) := by
  refine .of_peek fun s i => ?_
  split
  . exact .of_closes
  . next op hop =>
    have := fun loc => Even.operand (n := n) level tighter op loc left hlevel htighter
    refine .advance ?_ ?_ inferInstance
    . intro hkind
      rw [hkind, hlevel.leftParen] at hop
      cases hop
    . intro hkind
      rw [hkind, hlevel.rightParen] at hop
      cases hop

theorem binary {levels : List Precedence} (hlevels : ∀ level ∈ levels, PlainLevel level)
    : Closes 0 (binary (ofLevels n) levels) := by
  induction levels with
  | nil => exact inferInstanceAs (Closes 0 (unaryRule _))
  | cons level tighter ih =>
    obtain ⟨hlevel, htighter⟩ := List.forall_mem_cons.1 hlevels
    have := ih htighter
    exact .after fun left => operators hlevel htighter left

theorem operandRule {level : Precedence} {tighter : List Precedence} (hlevel : PlainLevel level)
    (htighter : ∀ level ∈ tighter, PlainLevel level) (op : BinaryOp) (loc : Location) (left : Expr)
    : Closes 0 (operandRule (ofLevels n) level tighter op loc left) := by
  have := binary (n := n) htighter
  exact .after fun right => operators hlevel htighter _

instance : Closes 0 (conditional (ofLevels n)) := by
  have := binary (n := n) plain_precedences
  unfold conditional
  infer_instance

instance : Closes 0 (arrowFunction (ofLevels n)) := by
  unfold arrowFunction
  dsimp only
  refine .after fun start => .accept_leftParen (.after fun params => ?_)
    (.after fun name => .after fun params => ?_)
  . exact inferInstance
  . exact inferInstance

instance : Closes 0 (assignmentRule (ofLevels n)) := by
  unfold assignmentRule
  refine .after fun arrow => .ite ?_ (.after fun target => .of_peek fun s i => ?_)
  . infer_instance
  . dsimp only
    split
    . exact .of_closes
    . next op hop =>
      refine .ite (.advance ?_ ?_ (.after fun value => ?_)) .fail_bind
      . intro hkind
        rw [hkind] at hop
        cases hop
      . intro hkind
        rw [hkind] at hop
        cases hop
      . split <;> infer_instance

instance (jumps : Jumps) : Closes 0 (body (ofLevels n) jumps) := by
  unfold body
  infer_instance

instance : Closes 0 (condition (ofLevels n)) := by
  unfold condition
  infer_instance

instance (kind : DeclareKind) : Closes 0 (declarator (ofLevels n) kind) := by
  unfold declarator
  dsimp only
  infer_instance

theorem declaration {s : TokenStream} {i : Nat} {found : DeclareKind} (kind : DeclareKind)
    (hkind : declareKind? (s.get i).kind = some found)
    : Balances s i 0 (declaration (ofLevels n) kind) := by
  refine .location_bind (.advance ?_ ?_ inferInstance)
  . intro hleft
    rw [hleft] at hkind
    cases hkind
  . intro hright
    rw [hright] at hkind
    cases hkind

instance (loc : Location) : Closes 0 (returnStatement (ofLevels n) loc) := by
  unfold returnStatement
  dsimp only
  infer_instance

instance (jumps : Jumps) (loc : Location) : Closes 0 (ifStatement (ofLevels n) jumps loc) := by
  unfold ifStatement
  dsimp only
  infer_instance

instance (jumps : Jumps) (loc : Location) : Closes 0 (whileStatement (ofLevels n) jumps loc) := by
  unfold whileStatement
  infer_instance

instance (jumps : Jumps) (loc : Location) : Closes 0 (doStatement (ofLevels n) jumps loc) := by
  unfold doStatement
  infer_instance

instance (close : Symbol) : Closes 0 (optionalExpression (ofLevels n) close) := by
  unfold optionalExpression
  infer_instance

instance : Closes 0 (forInit (ofLevels n)) := by
  refine .of_peek fun s i => .ite .of_closes ?_
  split
  . next hkind => exact .bind (declaration _ hkind) fun st => inferInstance
  . exact .of_closes

instance (jumps : Jumps) (loc : Location) : Closes 0 (forStatement (ofLevels n) jumps loc) := by
  unfold forStatement
  infer_instance

instance : Closes 0 handlerParam := by
  unfold handlerParam
  refine .accept_leftParen ?_ ?_
  . infer_instance
  . infer_instance

instance (jumps : Jumps) (loc : Location) : Closes 0 (tryStatement (ofLevels n) jumps loc) := by
  unfold tryStatement
  dsimp only
  refine .after fun block => .after fun found => .ite (.after fun param => .after fun body => ?_) ?_
  . infer_instance
  . infer_instance

instance (loc : Location) : Closes 0 (throwStatement (ofLevels n) loc) := by
  unfold throwStatement
  dsimp only
  infer_instance

instance (jumps : Jumps) : Closes 0 (statementRule (ofLevels n) jumps) := by
  refine .of_peek fun s i => ?_
  dsimp only
  split
  . next hkind => exact .bind (declaration _ (by rw [hkind]; rfl)) fun st => inferInstance
  . next hkind => exact .bind (declaration _ (by rw [hkind]; rfl)) fun st => inferInstance
  . next hkind => exact .bind (declaration _ (by rw [hkind]; rfl)) fun st => inferInstance
  . exact .of_closes
  . next hkind => exact .ite (.advance (by simp [hkind]) (by simp [hkind]) inferInstance) .fail_bind
  . next hkind => exact .advance (by simp [hkind]) (by simp [hkind]) inferInstance
  . next hkind => exact .advance (by simp [hkind]) (by simp [hkind]) inferInstance
  . next hkind => exact .advance (by simp [hkind]) (by simp [hkind]) inferInstance
  . next hkind => exact .advance (by simp [hkind]) (by simp [hkind]) inferInstance
  . next hkind => exact .ite (.advance (by simp [hkind]) (by simp [hkind]) inferInstance) .fail_bind
  . next hkind => exact .ite (.advance (by simp [hkind]) (by simp [hkind]) inferInstance) .fail_bind
  . next hkind => exact .advance (by simp [hkind]) (by simp [hkind]) inferInstance
  . next hkind => exact .advance (by simp [hkind]) (by simp [hkind]) inferInstance
  . exact .of_closes
  . next hkind => exact .advance (by simp [hkind]) (by simp [hkind]) inferInstance
  . exact .of_closes

instance even (n : Nat) : Even n := by
  induction n with
  | zero =>
    have hnone : ∀ {α : Type} (rule : Grammar → Parser α), Closes 0 (nested (ofLevels 0) rule) :=
      fun _ => .after fun _ => inferInstanceAs (Closes 0 (Parser.fail _ _))
    exact ⟨hnone _, fun _ => hnone _, hnone _, fun _ _ _ _ _ _ _ => hnone _,
      fun _ _ _ _ => (hnone _).balances⟩
  | succ n ih =>
    exact ⟨inferInstanceAs (Closes 0 (assignmentRule (ofLevels n))),
      fun jumps => inferInstanceAs (Closes 0 (statementRule (ofLevels n) jumps)),
      inferInstanceAs (Closes 0 (unaryRule (ofLevels n))),
      fun _ _ op loc left hlevel htighter => operandRule hlevel htighter op loc left,
      fun object _ _ hkind => accessRule object hkind⟩

end Closes
end Grammar
end ScriptHost
