import ScriptHost.Proofs.Syntax.Height
import ScriptHost.Proofs.Syntax.RoundTrip

/-!
This module contains how high the tree of an accepted script can get. The square of the limit for nesting
bounds the height, but a small multiple of the limit does not: a chain of operators takes a level of nesting
for each operator, and several chains in a row take no more levels than the longest of them, while their
heights add up.
-/

namespace ScriptHost

/-! Locations do not matter for the height of a tree. -/

mutual

theorem Expr.height_unplaced : (e : Expr) → e.unplaced.height = e.height
  | .number .. | .string .. | .bool .. | .null _ | .undefined _ | .name .. => rfl
  | .array elements _ => by rw [Expr.unplaced, Expr.height, Expr.height, Expr.heightAll_unplaced elements]
  | .object properties _ => by
    rw [Expr.unplaced, Expr.height, Expr.height, Property.heightAll_unplaced properties]
  | .function f => by rw [Expr.unplaced, Expr.height, Expr.height, Function.height_unplaced f]
  | .binary _ left right _ => by
    rw [Expr.unplaced, Expr.height, Expr.height, Expr.height_unplaced left, Expr.height_unplaced right]
  | .unary _ operand _ => by rw [Expr.unplaced, Expr.height, Expr.height, Expr.height_unplaced operand]
  | .assign target value _ => by
    rw [Expr.unplaced, Expr.height, Expr.height, Expr.height_unplaced target, Expr.height_unplaced value]
  | .compound _ target value _ => by
    rw [Expr.unplaced, Expr.height, Expr.height, Expr.height_unplaced target, Expr.height_unplaced value]
  | .conditional condition whenTrue whenFalse _ => by
    rw [Expr.unplaced, Expr.height, Expr.height, Expr.height_unplaced condition,
      Expr.height_unplaced whenTrue, Expr.height_unplaced whenFalse]
  | .call callee args _ => by
    rw [Expr.unplaced, Expr.height, Expr.height, Expr.height_unplaced callee, Expr.heightAll_unplaced args]
  | .member object _ _ => by rw [Expr.unplaced, Expr.height, Expr.height, Expr.height_unplaced object]
  | .index object key _ => by
    rw [Expr.unplaced, Expr.height, Expr.height, Expr.height_unplaced object, Expr.height_unplaced key]

theorem Expr.heightAll_unplaced : (es : List Expr) → Expr.heightAll (Expr.unplacedAll es) = Expr.heightAll es
  | [] => rfl
  | e :: es => by
    rw [Expr.unplacedAll, Expr.heightAll, Expr.heightAll, Expr.height_unplaced e, Expr.heightAll_unplaced es]

theorem Expr.height?_unplaced : (e? : Option Expr) → Expr.height? (Expr.unplaced? e?) = Expr.height? e?
  | none => rfl
  | some e => Expr.height_unplaced e

theorem Property.heightAll_unplaced
    : (ps : List Property) → Property.heightAll (Property.unplacedAll ps) = Property.heightAll ps
  | [] => rfl
  | ⟨_, value⟩ :: ps => by
    rw [Property.unplacedAll, Property.heightAll, Property.heightAll, Expr.height_unplaced value,
      Property.heightAll_unplaced ps]

theorem Function.height_unplaced : (f : Function) → f.unplaced.height = f.height
  | ⟨_, _, body, _⟩ => FunctionBody.height_unplaced body

theorem FunctionBody.height_unplaced : (body : FunctionBody) → body.unplaced.height = body.height
  | .block stmts => Stmt.heightAll_unplaced stmts
  | .expr value => Expr.height_unplaced value

theorem Stmt.height_unplaced : (st : Stmt) → st.unplaced.height = st.height
  | .declare _ declarators _ => by
    rw [Stmt.unplaced, Stmt.height, Stmt.height, Declarator.heightAll_unplaced declarators]
  | .function f => by rw [Stmt.unplaced, Stmt.height, Stmt.height, Function.height_unplaced f]
  | .return value _ => by rw [Stmt.unplaced, Stmt.height, Stmt.height, Expr.height?_unplaced value]
  | .if condition thenBranch elseBranch _ => by
    rw [Stmt.unplaced, Stmt.height, Stmt.height, Expr.height_unplaced condition,
      Stmt.heightAll_unplaced thenBranch, Stmt.heightAll?_unplaced elseBranch]
  | .while condition body _ => by
    rw [Stmt.unplaced, Stmt.height, Stmt.height, Expr.height_unplaced condition,
      Stmt.heightAll_unplaced body]
  | .doWhile body condition _ => by
    rw [Stmt.unplaced, Stmt.height, Stmt.height, Expr.height_unplaced condition,
      Stmt.heightAll_unplaced body]
  | .for init condition update body _ => by
    rw [Stmt.unplaced, Stmt.height, Stmt.height, Stmt.height?_unplaced init,
      Expr.height?_unplaced condition, Expr.height?_unplaced update, Stmt.heightAll_unplaced body]
  | .break _ | .continue _ | .empty _ => rfl
  | .throw value _ => by rw [Stmt.unplaced, Stmt.height, Stmt.height, Expr.height_unplaced value]
  | .try block handler finalizer _ => by
    rw [Stmt.unplaced, Stmt.height, Stmt.height, Stmt.heightAll_unplaced block,
      Handler.height?_unplaced handler, Stmt.heightAll?_unplaced finalizer]
  | .block stmts _ => by rw [Stmt.unplaced, Stmt.height, Stmt.height, Stmt.heightAll_unplaced stmts]
  | .expr value _ => by rw [Stmt.unplaced, Stmt.height, Stmt.height, Expr.height_unplaced value]

theorem Stmt.height?_unplaced : (st? : Option Stmt) → Stmt.height? (Stmt.unplaced? st?) = Stmt.height? st?
  | none => rfl
  | some st => Stmt.height_unplaced st

theorem Stmt.heightAll_unplaced
    : (stmts : List Stmt) → Stmt.heightAll (Stmt.unplacedAll stmts) = Stmt.heightAll stmts
  | [] => rfl
  | st :: stmts => by
    rw [Stmt.unplacedAll, Stmt.heightAll, Stmt.heightAll, Stmt.height_unplaced st,
      Stmt.heightAll_unplaced stmts]

theorem Stmt.heightAll?_unplaced
    : (stmts? : Option (List Stmt)) → Stmt.heightAll? (Stmt.unplacedAll? stmts?) = Stmt.heightAll? stmts?
  | none => rfl
  | some stmts => Stmt.heightAll_unplaced stmts

theorem Declarator.heightAll_unplaced
    : (ds : List Declarator) → Declarator.heightAll (Declarator.unplacedAll ds) = Declarator.heightAll ds
  | [] => rfl
  | ⟨_, init, _⟩ :: ds => by
    rw [Declarator.unplacedAll, Declarator.heightAll, Declarator.heightAll, Expr.height?_unplaced init,
      Declarator.heightAll_unplaced ds]

theorem Handler.height?_unplaced
    : (handler : Option Handler) → Handler.height? (Handler.unplaced? handler) = Handler.height? handler
  | none => rfl
  | some ⟨_, body⟩ => Stmt.heightAll_unplaced body

end

namespace Expr

/-- The expression with an operator and the variable `a` behind it as often as given. -/
def chain (op : BinaryOp) : Nat → Expr → Expr
  | 0, e => e
  | n + 1, e => .binary op (chain op n e) (.name "a" {}) {}

variable {op : BinaryOp} {e : Expr} {σ : Style}

theorem height_chain (he : 0 < e.height) (n : Nat) : (chain op n e).height = n + e.height := by
  induction n with
  | zero => exact (Nat.zero_add _).symm
  | succ n ih =>
    have hname : (Expr.name "a" {}).height = 1 := rfl
    rw [chain, Expr.height, ih, hname]
    omega

theorem wellFormed_chain (he : e.WellFormed) (n : Nat) : (chain op n e).WellFormed := by
  induction n with
  | zero => exact he
  | succ n ih => exact ⟨ih, trivial⟩

theorem level_chain (he : op.level ≤ e.level) (n : Nat) : op.level ≤ (chain op n e).level := by
  cases n with
  | zero => exact he
  | succ n => exact Nat.le_refl _

theorem print_chain (he : op.level ≤ e.level) (n : Nat)
    : (chain op n e).print σ
        = e.print σ ++ (List.replicate n [TokenKind.symbol op.symbol, .name "a"]).flatten := by
  induction n with
  | zero => simp [chain]
  | succ n ih =>
    have hclosed : enclosed op.level (chain op n e) ((chain op n e).print σ) = (chain op n e).print σ :=
      if_neg (Nat.not_lt_of_le (level_chain he n))
    have hname : enclosed (op.level + 1) (.name "a" {}) ((Expr.name "a" {}).print σ) = [.name "a"] := by
      have hlevel : (Expr.name "a" {}).level = 11 := rfl
      have := op.level_bounds
      exact if_neg (by omega)
    rw [chain, Expr.print, hclosed, hname, ih, List.replicate_succ', List.flatten_append]
    simp

theorem links_chain (he : op.level < e.level) (n : Nat) : (chain op (n + 1) e).links = n + 1 := by
  induction n with
  | zero =>
    rw [chain, links, chain, if_neg (Nat.ne_of_gt he)]
  | succ n ih =>
    have hlevel : (chain op (n + 1) e).level = op.level := rfl
    rw [chain, links, if_pos hlevel, ih]

/-- A chain takes as many levels as it has operators, or as many as what it starts with. -/
theorem need_chain (he : op.level < e.level) (n : Nat) : (chain op n e).need σ = max (e.need σ) n := by
  induction n with
  | zero => exact (Nat.max_zero _).symm
  | succ n ih =>
    have hclosed : needEnclosed op.level (chain op n e) ((chain op n e).need σ) = (chain op n e).need σ :=
      if_neg (Nat.not_lt_of_le (level_chain (Nat.le_of_lt he) n))
    have hname : needEnclosed (op.level + 1) (.name "a" {}) ((Expr.name "a" {}).need σ) = 0 := by
      have hlevel : (Expr.name "a" {}).level = 11 := rfl
      have := op.level_bounds
      exact if_neg (by omega)
    have hlinks := links_chain he n
    rw [chain] at hlinks ⊢
    rw [Expr.need, hclosed, hname, hlinks, ih]
    omega

end Expr

/-! Texts in which every token is a single character. -/

namespace Token

/-- The text stands on one line, and its tokens have the given kinds. -/
def Scans (cs : List Char) (ks : List TokenKind) : Prop :=
  ∀ (p : Cursor) (acc : Array Token), (∀ t ∈ acc, t.loc.line = p.line) →
    ∃ tokens, scanFrom p cs acc = .ok tokens ∧
      tokens.toList.map kind = acc.toList.map kind ++ ks ∧ ∀ t ∈ tokens, t.loc.line = p.line

theorem scans_nil : Scans [] [.endOfInput] := by
  intro p acc hacc
  refine ⟨acc.push ⟨.endOfInput, p.span 0⟩, by rw [scanFrom], by simp, ?_⟩
  intro t ht
  rcases Array.mem_push.1 ht with ht | rfl
  . exact hacc t ht
  . rfl

theorem Scans.cons {c : Char} {cs : List Char} {k : TokenKind} {ks : List TokenKind} (hcs : Scans cs ks)
    (hpiece : scanPiece c cs = .token k 0) (hc : c ≠ '\n')
    : Scans (c :: cs) (k :: ks) := by
  intro p acc hacc
  have hnext : ((p.next c).after (cs.take 0)).line = p.line := by
    simp [Cursor.after, Cursor.next, hc]
  have hacc' : ∀ t ∈ acc.push ⟨k, p.span 1⟩, t.loc.line = ((p.next c).after (cs.take 0)).line := by
    intro t ht
    rw [hnext]
    rcases Array.mem_push.1 ht with ht | rfl
    . exact hacc t ht
    . rfl
  obtain ⟨tokens, hok, hkinds, hline⟩ := hcs _ _ hacc'
  refine ⟨tokens, ?_, ?_, ?_⟩
  . rw [scanFrom, hpiece]
    exact hok
  . simpa using hkinds
  . intro t ht
    rw [hline t ht, hnext]

/-- No name goes on here. -/
def EndsName (cs : List Char) : Prop :=
  cs.head?.any isNamePart = false

theorem scanPiece_name {cs : List Char} (hcs : EndsName cs) : scanPiece 'a' cs = .token (.name "a") 0 := by
  have hmore : cs.takeWhile isNamePart = [] := by
    cases cs with
    | nil => rfl
    | cons c cs => exact List.takeWhile_cons_of_neg (by simpa [EndsName] using hcs)
  have hname : scanName 'a' cs = .token (.name "a") 0 := by
    unfold scanName
    rw [hmore]
    rfl
  unfold scanPiece
  rw [if_neg (by decide), if_neg (by simp), if_neg (by simp), if_neg (by decide),
    if_neg (by simp [startsNumber]), if_pos (by decide)]
  exact hname

/-- A text that goes on with an operator of one character as often as given, each time with an `a`. -/
def chainText (c : Char) (n : Nat) (cs : List Char) : List Char :=
  (List.replicate n [c, 'a']).flatten ++ cs

theorem scans_chainText {c : Char} {op : BinaryOp} {n : Nat} {cs : List Char} {ks : List TokenKind}
    (hop : ∀ cs, scanPiece c ('a' :: cs) = .token (.symbol op.symbol) 0) (hc : c ≠ '\n')
    (hpart : isNamePart c = false) (hends : EndsName cs) (hcs : Scans cs ks)
    : Scans (chainText c n cs) ((List.replicate n [.symbol op.symbol, .name "a"]).flatten ++ ks) ∧
        EndsName (chainText c n cs) := by
  induction n with
  | zero => exact ⟨hcs, hends⟩
  | succ n ih =>
    obtain ⟨hscans, hends'⟩ := ih
    refine ⟨?_, by simpa [EndsName, chainText, List.replicate_succ] using hpart⟩
    exact (hscans.cons (scanPiece_name hends') (by decide)).cons (hop _) hc

theorem scan_eq_scanFrom {cs : List Char} (hcs : cs.head? ≠ some '#') : scan cs = scanFrom {} cs #[] := by
  have hshebang : shebangLength cs = 0 := by
    unfold shebangLength
    rw [if_neg]
    intro htake
    cases cs with
    | nil => cases htake
    | cons c cs =>
      obtain ⟨rfl, -⟩ := List.cons.inj htake
      exact hcs rfl
  unfold scan
  rw [hshebang]
  rfl

end Token

/-- A text with chains of three precedences in a row, such as `a*a*a+a+a<a<a;`. -/
def chainsText (n : Nat) : List Char :=
  'a' :: Token.chainText '*' n (Token.chainText '+' n (Token.chainText '<' n [';']))

/-- The expression of the text: each chain stands at the start of the next one. -/
def Expr.chains (n : Nat) : Expr :=
  .chain .lt n (.chain .add n (.chain .mul n (.name "a" {})))

namespace Expr

variable (σ : Style) (n : Nat)

theorem add_lt_level_product : BinaryOp.add.level < (chain .mul n (.name "a" {})).level := by
  have hadd : BinaryOp.add.level < BinaryOp.mul.level := by decide
  exact Nat.lt_of_lt_of_le hadd (level_chain (by decide) n)

theorem lt_lt_level_sum : BinaryOp.lt.level < (chain .add n (chain .mul n (.name "a" {}))).level := by
  have hlt : BinaryOp.lt.level < BinaryOp.add.level := by decide
  exact Nat.lt_of_lt_of_le hlt (level_chain (Nat.le_of_lt (add_lt_level_product n)) n)

theorem wellFormed_chains : (chains n).WellFormed :=
  wellFormed_chain (wellFormed_chain (wellFormed_chain (e := .name "a" {}) trivial n) n) n

theorem height_chains : (chains n).height = 3 * n + 1 := by
  have hname : (Expr.name "a" {}).height = 1 := rfl
  have hproduct : (chain .mul n (.name "a" {})).height = n + 1 := height_chain (by decide) n
  have hsum : (chain .add n (chain .mul n (.name "a" {}))).height = n + (n + 1) := by
    rw [height_chain (by omega), hproduct]
  rw [chains, height_chain (by omega), hsum]
  omega

theorem need_chains : (chains n).need σ = n := by
  have hproduct : (chain .mul n (.name "a" {})).need σ = n := by
    rw [need_chain (by decide)]
    exact Nat.zero_max n
  have hsum : (chain .add n (chain .mul n (.name "a" {}))).need σ = n := by
    rw [need_chain (add_lt_level_product n), hproduct, Nat.max_self]
  rw [chains, need_chain (lt_lt_level_sum n), hsum, Nat.max_self]

theorem print_chains
    : (chains n).print σ
        = .name "a" :: ((List.replicate n [.symbol .star, .name "a"]).flatten ++
          ((List.replicate n [.symbol .plus, .name "a"]).flatten ++
            (List.replicate n [.symbol .less, .name "a"]).flatten)) := by
  rw [chains, print_chain (Nat.le_of_lt (lt_lt_level_sum n)),
    print_chain (Nat.le_of_lt (add_lt_level_product n)), print_chain (by decide), Expr.print,
    List.append_assoc, List.append_assoc]
  rfl

end Expr

/-- The script that consists of the chains. -/
def chainsScript (n : Nat) : List Stmt :=
  [.expr (.chains n) {}]

theorem printAll_chainsScript (σ : Style) (n : Nat)
    : Stmt.printAll σ (chainsScript n) = (Expr.chains n).print σ ++ [.symbol .semicolon] := by
  have hstart : isStatementStart ((Expr.chains n).print σ) = false := by
    rw [Expr.print_chains]
    rfl
  rw [chainsScript, Stmt.printAll, Stmt.print, hstart, Stmt.printAll, List.append_nil]
  rfl

theorem needAll_chainsScript (σ : Style) (n : Nat) : Stmt.needAll σ (chainsScript n) = n + 2 := by
  have hstart : isStatementStart ((Expr.chains n).print σ) = false := by
    rw [Expr.print_chains]
    rfl
  rw [chainsScript, Stmt.needAll, Stmt.need, hstart, needGuarded, if_neg Bool.false_ne_true, Expr.need_chains,
    Stmt.needAll]
  exact Nat.max_zero _

theorem scans_chainsText (σ : Style) (n : Nat)
    : Token.Scans (chainsText n) (Stmt.printAll σ (chainsScript n) ++ [.endOfInput]) := by
  have hend : Token.Scans [';'] [.symbol .semicolon, .endOfInput] := Token.scans_nil.cons rfl (by decide)
  have hsemicolon : Token.EndsName [';'] := rfl
  have hless := @Token.scans_chainText '<' .lt n _ _ (fun _ => rfl) (by decide) (by decide) hsemicolon hend
  have hplus := @Token.scans_chainText '+' .add n _ _ (fun _ => rfl) (by decide) (by decide) hless.2 hless.1
  have hstar := @Token.scans_chainText '*' .mul n _ _ (fun _ => rfl) (by decide) (by decide) hplus.2 hplus.1
  have hname := hstar.1.cons (Token.scanPiece_name hstar.2) (by decide)
  have hkinds : Stmt.printAll σ (chainsScript n) ++ [.endOfInput]
      = .name "a" :: ((List.replicate n [.symbol .star, .name "a"]).flatten ++
        ((List.replicate n [.symbol .plus, .name "a"]).flatten ++
          ((List.replicate n [.symbol .less, .name "a"]).flatten ++ [.symbol .semicolon, .endOfInput]))) := by
    simp [printAll_chainsScript, Expr.print_chains]
  rw [hkinds]
  exact hname

/--
A text with `n` operators of each kind is accepted although its tree is about three times as high as the
nesting that it takes.
-/
theorem parse_chainsText {n : Nat} (hn : n + 2 ≤ Grammar.maxNesting)
    : ∃ stmts, parse (String.ofList (chainsText n)) = .ok stmts ∧ Stmt.heightAll stmts = 3 * n + 2 := by
  obtain ⟨tokens, hscan, hkinds, hline⟩ := scans_chainsText {} n {} #[] nofun
  have hstmts : Stmt.WellFormedAll {} (chainsScript n) := ⟨Expr.wellFormed_chains n, trivial⟩
  have hs : (TokenStream.ofTokens tokens).Line :=
    TokenStream.line_ofTokens fun t ht t' ht' => (hline t ht).trans (hline t' ht').symm
  have hneed : True → Stmt.needAll {} (chainsScript n) ≤ Grammar.maxNesting := by
    intro _
    rw [needAll_chainsScript]
    exact hn
  rcases reads_script (Stmt.readableAll {} {} _ hstmts) hs hneed 0 hkinds with
    ⟨stmts, i, hok, hstmts', -⟩ | ⟨hfalse, -⟩
  . refine ⟨stmts, parse_eq_ok_iff.2 ⟨tokens, i, ?_, hok⟩, ?_⟩
    . rw [String.toList_ofList, Token.scan_eq_scanFrom (by simp [chainsText])]
      exact hscan
    . rw [← Stmt.heightAll_unplaced, hstmts', Stmt.heightAll_unplaced]
      rw [chainsScript, Stmt.heightAll, Stmt.height, Expr.height_chains, Stmt.heightAll]
      exact Nat.max_zero _
  . exact absurd trivial hfalse

/-- The height of a script's tree is bounded by the square of the limit for nesting. -/
theorem parse_height {source : String} {stmts : List Stmt} (hparse : parse source = .ok stmts)
    : Stmt.heightAll stmts ≤ 4 * Grammar.maxNesting ^ 2 := by
  have hscript : Gives Grammar.script fun stmts => ∀ st ∈ stmts, st.height ≤ Grammar.tallest 1000 :=
    Gives.many ((Grammar.bounded_tallest 1000).nestedStatement 1000 (Nat.le_refl _) {})
  obtain ⟨tokens, i, -, hrun⟩ := parse_eq_ok_iff.1 hparse
  have hheight := Stmt.heightAll_le (hscript _ _ _ _ hrun)
  have htallest := Grammar.two_mul_tallest 1000
  unfold Grammar.maxNesting
  omega

theorem parse_height_chains
    : ∃ stmts, parse (String.ofList (chainsText 700)) = .ok stmts ∧
        Stmt.heightAll stmts ≤ 4 * Grammar.maxNesting ^ 2 := by
  obtain ⟨stmts, hparse, -⟩ := parse_chainsText (n := 700) (by decide)
  exact ⟨stmts, hparse, parse_height hparse⟩

/-- With 700 operators of each kind the tree is more than twice as high as the limit for nesting. -/
theorem parse_chains_seven_hundred
    : ∃ stmts, parse (String.ofList (chainsText 700)) = .ok stmts ∧
        2 * Grammar.maxNesting < Stmt.heightAll stmts := by
  obtain ⟨stmts, hparse, hheight⟩ := parse_chainsText (n := 700) (by decide)
  refine ⟨stmts, hparse, ?_⟩
  rw [hheight]
  decide

end ScriptHost
