import ScriptHost.Proofs.Syntax.ReadableStmt

/-!
This module contains that scripts are read back from what is printed of them: every well-formed tree comes
back, unless it nests too deep.
-/

namespace ScriptHost

/-! All well-formed trees are readable, by induction on the trees. -/

mutual

theorem Expr.readable (σ : Style) : (e : Expr) → e.WellFormed → e.Readable σ
  | .number value _, _ => Expr.readable_number value
  | .string value _, _ => Expr.readable_string value
  | .bool value _, _ => Expr.readable_bool value
  | .null _, _ => Expr.readable_null
  | .undefined _, _ => Expr.readable_undefined
  | .name name _, _ => Expr.readable_name name
  | .array elements _, h => Expr.readable_array (Expr.readableAll σ elements h)
  | .object properties _, h => Expr.readable_object (Property.readableAll σ properties h)
  | .function ⟨_, _, .block stmts, _⟩, h =>
    Expr.readable_function h.1 (Stmt.readableAll σ _ stmts h.2.2)
  | .function ⟨some _, _, .expr _, _⟩, h => nomatch h.2.1
  | .function ⟨none, _, .expr value, _⟩, h => Expr.readable_arrow h.1 (Expr.readable σ value h.2.2)
  | .binary _ left right _, h => Expr.readable_binary (Expr.readable σ left h.1) (Expr.readable σ right h.2)
  | .unary _ operand _, h => Expr.readable_unary h.1 (Expr.readable σ operand h.2)
  | .assign target value _, h =>
    Expr.readable_assign h.1 (Expr.readable σ target h.2.1) (Expr.readable σ value h.2.2)
  | .compound _ target value _, h =>
    Expr.readable_compound h.1 h.2.1 (Expr.readable σ target h.2.2.1) (Expr.readable σ value h.2.2.2)
  | .conditional condition whenTrue whenFalse _, h =>
    Expr.readable_conditional (Expr.readable σ condition h.1) (Expr.readable σ whenTrue h.2.1)
      (Expr.readable σ whenFalse h.2.2)
  | .call callee args _, h => Expr.readable_call (Expr.readable σ callee h.1) (Expr.readableAll σ args h.2)
  | .member object _ _, h => Expr.readable_member (Expr.readable σ object h)
  | .index object key _, h => Expr.readable_index (Expr.readable σ object h.1) (Expr.readable σ key h.2)

theorem Expr.readableAll (σ : Style)
    : (es : List Expr) → Expr.WellFormedAll es → ∀ e ∈ es, e.Readable σ
  | [], _ => nofun
  | e :: es, h => List.forall_mem_cons.2 ⟨Expr.readable σ e h.1, Expr.readableAll σ es h.2⟩

theorem Expr.readable? (σ : Style) : (e? : Option Expr) → Expr.WellFormed? e? → ∀ e ∈ e?, e.Readable σ
  | none, _ => nofun
  | some e, h => fun _ he => Option.some.inj he ▸ Expr.readable σ e h

theorem Property.readableAll (σ : Style)
    : (ps : List Property) → Property.WellFormedAll ps → ∀ q ∈ ps, q.value.Readable σ
  | [], _ => nofun
  | ⟨_, value⟩ :: ps, h =>
    List.forall_mem_cons.2 ⟨Expr.readable σ value h.1, Property.readableAll σ ps h.2⟩

theorem FunctionBody.readable (σ : Style) : (body : FunctionBody) → body.WellFormed → body.Readable σ
  | .block stmts, h => Stmt.readableAll σ _ stmts h
  | .expr value, h => Expr.readable σ value h

theorem Stmt.readable (σ : Style) (jumps : Jumps)
    : (st : Stmt) → st.WellFormed jumps → st.Readable σ jumps
  | .declare _ declarators _, h =>
    Stmt.readable_declare h.1 h.2.1 (Declarator.readableAll σ declarators h.2.2)
  | .function ⟨_, _, body, _⟩, h =>
    Stmt.readable_function h.1 h.2.1 h.2.2.1 (FunctionBody.readable σ body h.2.2.2.2)
  | .return value _, h => Stmt.readable_return h.1 (Expr.readable? σ value h.2)
  | .if condition thenBranch elseBranch _, h =>
    Stmt.readable_if (Expr.readable σ condition h.1) (Stmt.readableAll σ jumps thenBranch h.2.1)
      (Stmt.readableAll? σ jumps elseBranch h.2.2)
  | .while condition body _, h =>
    Stmt.readable_while (Expr.readable σ condition h.1) (Stmt.readableAll σ _ body h.2)
  | .doWhile body condition _, h =>
    Stmt.readable_doWhile (Expr.readable σ condition h.2) (Stmt.readableAll σ _ body h.1)
  | .for init condition update body _, h =>
    Stmt.readable_for (Stmt.readableInit σ jumps init h.1 h.2.1) (Expr.readable? σ condition h.2.2.1)
      (Expr.readable? σ update h.2.2.2.1) (Stmt.readableAll σ _ body h.2.2.2.2)
  | .break _, h => Stmt.readable_break h
  | .continue _, h => Stmt.readable_continue h
  | .throw value _, h => Stmt.readable_throw (Expr.readable σ value h)
  | .try block handler finalizer _, h =>
    Stmt.readable_try h.1 (Stmt.readableAll σ jumps block h.2.1) (Handler.readable? σ jumps handler h.2.2.1)
      (Stmt.readableAll? σ jumps finalizer h.2.2.2)
  | .block stmts _, h => Stmt.readable_block (Stmt.readableAll σ jumps stmts h)
  | .empty _, _ => Stmt.readable_empty
  | .expr value _, h => Stmt.readable_expr (Expr.readable σ value h)

theorem Stmt.readableInit (σ : Style) (jumps : Jumps)
    : (init : Option Stmt) → (∀ st ∈ init, st.isInit) → Stmt.WellFormed? jumps init →
      Stmt.InitReadable σ init
  | none, _, _ => trivial
  | some (.declare _ declarators _), _, h => ⟨h.1, h.2.1, Declarator.readableAll σ declarators h.2.2⟩
  | some (.expr value _), _, h => Expr.readable σ value h
  | some (.function _), hinit, _ | some (.return ..), hinit, _ | some (.if ..), hinit, _
  | some (.while ..), hinit, _ | some (.doWhile ..), hinit, _ | some (.for ..), hinit, _
  | some (.break _), hinit, _ | some (.continue _), hinit, _ | some (.throw ..), hinit, _
  | some (.try ..), hinit, _ | some (.block ..), hinit, _ | some (.empty _), hinit, _ =>
    nomatch hinit _ rfl

theorem Stmt.readableAll (σ : Style) (jumps : Jumps)
    : (stmts : List Stmt) → Stmt.WellFormedAll jumps stmts → ∀ st ∈ stmts, st.Readable σ jumps
  | [], _ => nofun
  | st :: stmts, h =>
    List.forall_mem_cons.2 ⟨Stmt.readable σ jumps st h.1, Stmt.readableAll σ jumps stmts h.2⟩

theorem Stmt.readableAll? (σ : Style) (jumps : Jumps)
    : (stmts? : Option (List Stmt)) → Stmt.WellFormedAll? jumps stmts? →
      ∀ stmts ∈ stmts?, ∀ st ∈ stmts, st.Readable σ jumps
  | none, _ => nofun
  | some stmts, h => fun _ hstmts => Option.some.inj hstmts ▸ Stmt.readableAll σ jumps stmts h

theorem Declarator.readableAll (σ : Style)
    : (ds : List Declarator) → Declarator.WellFormedAll ds → ∀ d ∈ ds, ∀ e ∈ d.init, e.Readable σ
  | [], _ => nofun
  | ⟨_, init, _⟩ :: ds, h =>
    List.forall_mem_cons.2 ⟨Expr.readable? σ init h.1, Declarator.readableAll σ ds h.2⟩

theorem Handler.readable? (σ : Style) (jumps : Jumps)
    : (handler : Option Handler) → Handler.WellFormed? jumps handler →
      ∀ h ∈ handler, ∀ st ∈ h.body, st.Readable σ jumps
  | none, _ => nofun
  | some ⟨_, body⟩, h => fun _ hhandler => Option.some.inj hhandler ▸ Stmt.readableAll σ jumps body h

end

/-- A script of readable statements. -/
theorem reads_script {σ : Style} {stmts : List Stmt} (h : ∀ st ∈ stmts, st.Readable σ {})
    {s : TokenStream} {p : Prop} (hs : s.Line) (hp : p → Stmt.needAll σ stmts ≤ Grammar.maxNesting)
    : Reads s p Grammar.script (Stmt.printAll σ stmts ++ [.endOfInput]) fun stmts' ks' =>
        Stmt.unplacedAll stmts' = Stmt.unplacedAll stmts ∧ ks' = [.endOfInput] := by
  have hmore : ∀ k ks, k.startsStmt → Reads s p (do return !(← Parser.atEnd)) (k :: ks) fun b ks' =>
      b = true ∧ ks' = k :: ks := by
    intro k ks hk
    simp [TokenKind.startsStmt] at hk
    apply Reads.atEnd
    rw [decide_eq_false hk.2.1]
    exact .pure ⟨rfl, rfl⟩
  have hdone : Reads s p (do return !(← Parser.atEnd)) [.endOfInput] fun b ks' =>
      b = false ∧ ks' = [.endOfInput] := by
    apply Reads.atEnd
    exact .pure ⟨rfl, rfl⟩
  exact Stmt.reads_statements h hs hp rfl hmore hdone

/--
What is printed of a tree on one line is read back as the tree, apart from the locations, unless the tree
nests deeper than a script may. Nothing else fails.
-/
theorem script_print (σ : Style) {stmts : List Stmt} {tokens : Array Token}
    (hstmts : Stmt.WellFormedAll {} stmts)
    (hkinds : tokens.toList.map Token.kind = Stmt.printAll σ stmts ++ [.endOfInput])
    (hline : ∀ t ∈ tokens, ∀ t' ∈ tokens, t.loc.line = t'.loc.line)
    : (∃ stmts' i, (Grammar.script.run (.ofTokens tokens)).run 0 = .ok (stmts', i) ∧
          Stmt.unplacedAll stmts' = Stmt.unplacedAll stmts) ∨
        (Grammar.maxNesting < Stmt.needAll σ stmts ∧
          ∃ loc, (Grammar.script.run (.ofTokens tokens)).run 0 = .error ⟨.nestedTooDeep, loc⟩) := by
  have hread := reads_script (Stmt.readableAll σ {} stmts hstmts) (TokenStream.line_ofTokens hline) id
  rcases hread 0 hkinds with ⟨stmts', i, hok, hstmts', -⟩ | ⟨hneed, loc, herror⟩
  . exact .inl ⟨stmts', i, hok, hstmts'⟩
  . exact .inr ⟨Nat.lt_of_not_le hneed, loc, herror⟩

/-- The text `(a + b) * c;`, whose parentheses are needed. -/
theorem script_print_product
    : let stmts : List Stmt :=
        [.expr (.binary .mul (.binary .add (.name "a" {}) (.name "b" {}) {}) (.name "c" {}) {}) {}]
      let tokens : Array Token :=
        #[⟨.symbol .leftParen, {}⟩, ⟨.name "a", {}⟩, ⟨.symbol .plus, {}⟩, ⟨.name "b", {}⟩,
          ⟨.symbol .rightParen, {}⟩, ⟨.symbol .star, {}⟩, ⟨.name "c", {}⟩, ⟨.symbol .semicolon, {}⟩,
          ⟨.endOfInput, {}⟩]
      ∃ stmts' i, (Grammar.script.run (.ofTokens tokens)).run 0 = .ok (stmts', i) ∧
        Stmt.unplacedAll stmts' = Stmt.unplacedAll stmts := by
  intro stmts tokens
  have hstmts : Stmt.WellFormedAll {} stmts := ⟨⟨⟨trivial, trivial⟩, trivial⟩, trivial⟩
  have hline : ∀ t ∈ tokens, ∀ t' ∈ tokens, t.loc.line = t'.loc.line := by simp [tokens]
  rcases script_print {} hstmts rfl hline with hread | ⟨hdeep, -⟩
  . exact hread
  . exact absurd hdeep (by decide)

end ScriptHost
