import Mathlib.Data.List.GetD
import ScriptHost.Proofs.Syntax.MirrorsStmt
import ScriptHost.Proofs.Syntax.Sourced
import ScriptHost.Proofs.Syntax.Whole

/-!
This module contains what the text of a function is as a script of its own: in parentheses it is read as the
same function.
-/

namespace ScriptHost

open Grammar

theorem TokenStream.get_ofTokens {tokens : List Token} {i : Nat}
    : (TokenStream.ofTokens tokens.toArray).get i = tokens.getD i ⟨.endOfInput, {}⟩ := by
  simp [TokenStream.get, TokenStream.ofTokens]

theorem TokenStream.get_ofTokens_of_lt {tokens : Array Token} {i : Nat} (hi : i < tokens.size)
    : (TokenStream.ofTokens tokens).get i = tokens[i] :=
  TokenStream.get_eq_getElem (s := .ofTokens tokens) hi

/-- The tokens from one position up to another one, in the script and in parentheses. -/
structure Excerpt (text : List Char) (tokens : Array Token) (i j : Nat) extends Window where
  parenthesized : Array Token
  source_eq : source = .ofTokens tokens
  target_eq : target = .ofTokens parenthesized
  start_eq : start = i
  place_eq : place = 1
  width_eq : width = j - i
  offset_origin : origin.offset = (source.get i).loc.offset
  offset_goal : goal.offset = 1
  scanned : Token.scan ('(' :: (text.extract (source.get i).loc.offset (source.get (j - 1)).loc.endOffset ++ [')'])) =
    .ok parenthesized
  opened : (target.get 0).kind = .symbol .leftParen
  ended : (target.get (width + 2)).kind = .endOfInput

theorem exists_excerpt {text : List Char} {tokens : Array Token} (hscan : Token.scan text = .ok tokens)
    {i j : Nat} (hij : i < j) (hj : j < tokens.size)
    : Nonempty (Excerpt text tokens i j) := by
  let inner := (tokens.toList.drop i).take (j - i)
  have hlength : inner.length = j - i := by
    simp only [inner, List.length_take, List.length_drop, Array.length_toList]
    omega
  have hinner : inner ≠ [] := List.ne_nil_of_length_pos (by omega)
  have htokens : tokens.toList = tokens.toList.take i ++ inner ++ tokens.toList.drop j := by
    have hdrop : tokens.toList.drop j = (tokens.toList.drop i).drop (j - i) := by
      rw [List.drop_drop, Nat.add_sub_cancel' (Nat.le_of_lt hij)]
    rw [hdrop, List.append_assoc, List.take_append_drop, List.take_append_drop]
  have hbehind : tokens.toList.drop j ≠ [] := by
    apply List.ne_nil_of_length_pos
    rw [List.length_drop, Array.length_toList]
    omega
  have hget : ∀ {k} (hk : k < inner.length), inner[k] = (TokenStream.ofTokens tokens).get (i + k) := by
    intro k hk
    rw [TokenStream.get_ofTokens_of_lt (show i + k < tokens.size by omega)]
    simp [inner]
  obtain ⟨p, inner', left, right, last, hoffset, hmoved, hscanned⟩ :=
    Token.scan_parenthesized hscan htokens hinner hbehind
  obtain ⟨hlength', hmoved⟩ := List.forall₂_iff_get.1 hmoved
  have hfirst : inner.head hinner = (TokenStream.ofTokens tokens).get i := by
    rw [← List.getElem_zero (by omega), hget]
    rfl
  have hlast : inner.getLast hinner = (TokenStream.ofTokens tokens).get (j - 1) := by
    rw [List.getLast_eq_getElem, hget]
    congr 1
    omega
  rw [hfirst, hlast] at hscanned
  refine ⟨{
    source := .ofTokens tokens
    target := .ofTokens (Token.mk (.symbol .leftParen) left ::
      (inner' ++ [⟨.symbol .rightParen, right⟩, ⟨.endOfInput, last⟩])).toArray
    start := i, place := 1, width := j - i, origin := p, goal := Token.behindParen
    start_le := ?_, place_le := ?_, moved := ?_, closed := ?_
    knowsSource := inferInstance, knowsTarget := inferInstance
    parenthesized := _, source_eq := rfl, target_eq := rfl, start_eq := rfl, place_eq := rfl, width_eq := rfl
    offset_origin := hfirst ▸ hoffset, offset_goal := rfl, scanned := hscanned, opened := rfl, ended := ?_ }⟩
  . change i + (j - i) ≤ tokens.size
    omega
  . simp only [TokenStream.ofTokens, List.size_toArray, List.length_cons, List.length_append, List.length_nil]
    omega
  . intro k hk
    have hk' : k < inner'.length := by omega
    have := hmoved k (by omega) hk'
    rw [List.get_eq_getElem, List.get_eq_getElem, hget] at this
    dsimp only at this ⊢
    rw [@TokenStream.get_ofTokens (_ :: _), Nat.add_comm 1 k, List.getD_cons_succ, List.getD_append _ _ _ _ hk',
      List.getD_eq_getElem _ _ hk']
    exact this
  . rw [TokenStream.get_ofTokens, Nat.add_comm 1, List.getD_cons_succ, List.getD_append_right _ _ _ _ (by omega)]
    rw [show j - i - inner'.length = 0 by omega]
    rfl
  . rw [TokenStream.get_ofTokens, List.getD_cons_succ, List.getD_append_right _ _ _ _ (by omega)]
    rw [show j - i + 1 - inner'.length = 1 by omega]
    rfl

namespace Grammar

variable {s : TokenStream} {i j n : Nat} {named : Bool} {f : Function}

/-- A function begins with its first token and ends with its last one. -/
theorem functionLiteral_at (h : (functionLiteral (ofLevels n) named).at s i = .ok (f, j))
    : (s.get i).kind = .keyword .function ∧ f.loc = (s.get i).loc.through (s.get (j - 1)).loc := by
  unfold functionLiteral at h
  obtain ⟨start, _, hstart, h⟩ := Parser.bind_eq_ok h
  cases hstart
  obtain ⟨_, _, hexpect, h⟩ := Parser.bind_eq_ok h
  rw [Parser.expectKeyword_at] at hexpect
  split at hexpect
  . next hkind =>
    refine ⟨hkind, ?_⟩
    obtain ⟨t, _, -, h⟩ := Parser.bind_eq_ok h
    have hrest : ∀ (name : Option String) k, (do
        Parser.expectSymbol .leftParen
        let params ← parameters
        Parser.expectSymbol .rightParen
        let body ← braced (ofLevels n) { inFunction := true }
        return ⟨name, params, .block body, (s.get i).loc.through (← Parser.previous).loc⟩ : Parser Function).at s k =
          .ok (f, j) → f.loc = (s.get i).loc.through (s.get (j - 1)).loc := by
      intro name k h
      obtain ⟨_, _, -, h⟩ := Parser.bind_eq_ok h
      obtain ⟨params, _, -, h⟩ := Parser.bind_eq_ok h
      obtain ⟨_, _, -, h⟩ := Parser.bind_eq_ok h
      obtain ⟨body, _, -, h⟩ := Parser.bind_eq_ok h
      cases h
      rfl
    split at h
    . obtain ⟨name, k, -, h⟩ := Parser.bind_eq_ok h
      exact hrest name k h
    . obtain ⟨name, k, -, h⟩ := Parser.bind_eq_ok h
      exact hrest name k h
    . exact hrest none _ h
  . cases hexpect

theorem arrowFunction_at (h : (arrowFunction (ofLevels n)).at s i = .ok (.function f, j))
    : f.loc = (s.get i).loc.through (s.get (j - 1)).loc := by
  unfold arrowFunction at h
  obtain ⟨start, _, hstart, h⟩ := Parser.bind_eq_ok h
  cases hstart
  have hrest : ∀ (params : List String) k, (do
      Parser.expectSymbol .arrow
      let body ← if ← Parser.checkSymbol .leftBrace then
          FunctionBody.block <$> braced (ofLevels n) { inFunction := true }
        else
          FunctionBody.expr <$> expression (ofLevels n)
      return .function ⟨none, params, body, (s.get i).loc.through (← Parser.previous).loc⟩ : Parser Expr).at s k =
        .ok (.function f, j) → f.loc = (s.get i).loc.through (s.get (j - 1)).loc := by
    intro params k h
    obtain ⟨_, _, -, h⟩ := Parser.bind_eq_ok h
    obtain ⟨brace, _, -, h⟩ := Parser.bind_eq_ok h
    have hend : ∀ (body : FunctionBody) k, (do
        return .function ⟨none, params, body, (s.get i).loc.through (← Parser.previous).loc⟩ : Parser Expr).at s k =
          .ok (.function f, j) → f.loc = (s.get i).loc.through (s.get (j - 1)).loc := by
      intro body k h
      cases h
      rfl
    split at h
    . obtain ⟨body, k, -, h⟩ := Parser.bind_eq_ok h
      exact hend body k h
    . obtain ⟨body, k, -, h⟩ := Parser.bind_eq_ok h
      exact hend body k h
  obtain ⟨paren, _, -, h⟩ := Parser.bind_eq_ok h
  split at h
  . obtain ⟨params, _, -, h⟩ := Parser.bind_eq_ok h
    obtain ⟨_, k, -, h⟩ := Parser.bind_eq_ok h
    exact hrest params k h
  . obtain ⟨name, k, -, h⟩ := Parser.bind_eq_ok h
    exact hrest [name] k h

end Grammar

/--
The text of a function is, in parentheses, a script with that function as its only expression, but for where it
stands: all its locations are as long as before, and as far from each other. Only the level of nesting that the
parentheses take may be too much.
-/
def Script.ReadsAlone (sc : Script) (f : Function) : Prop :=
  (∃ f' loc, parse ("(" ++ sc.slice f.loc.offset f.loc.len ++ ")") = .ok [.expr (.function f') loc] ∧
      f.Moved f.loc.offset 1 f') ∨
    ∃ loc, parse ("(" ++ sc.slice f.loc.offset f.loc.len ++ ")") = .error ⟨.nestedTooDeep, loc⟩

namespace Excerpt

variable {text : List Char} {tokens : Array Token} {i j n : Nat} {named : Bool} {f : Function}
  (w : Excerpt text tokens i j)

/-- The parentheses are no parameters. -/
theorem startsArrow_zero {ks : List TokenKind} (hks : Balanced ks)
    (hbetween : w.source.Between w.start (w.start + w.width) ks)
    : Parser.startsArrow w.target 0 = false := by
  have hinner := w.toWindow.between (k := 0) hbetween (Nat.le_refl _)
  rw [Nat.add_zero, w.place_eq] at hinner
  have hclosed := w.closed
  rw [w.place_eq] at hclosed
  have hparens := TokenStream.between_parens w.opened hinner hclosed
  have := w.knowsTarget
  rw [Bool.eq_false_iff, Ne, TokenStream.startsArrow_parens_iff hks hparens]
  rw [show 1 + w.width + 1 = w.width + 2 by omega, w.ended]
  nofun

/-- The expression in the parentheses is the function, moved. -/
def IsMoved (f : Function) (e : Expr) : Prop :=
  ∃ f', e = .function f' ∧ w.MovesFunction f f'

theorem reaches_literal (hok : (functionLiteral (ofLevels n) named).at w.source w.start = .ok (f, w.start + w.width)) (m : Nat)
    : Reaches w.target w.place (w.place + w.width) (assignmentRule (ofLevels m)) (w.IsMoved f) := by
  have hwidth : 0 < w.width := by
    have := Takes.advances (n := 1) _ _ hok
    omega
  have hkind : (w.target.get w.place).kind = .keyword .function := by
    have := (w.moved 0 hwidth).kind
    rw [Nat.add_zero, Nat.add_zero, (functionLiteral_at hok).1] at this
    exact this
  have hmirrors : w.toWindow.Mirrors (w.width + 1) 0 (functionLiteral (ofLevels n) named)
      (functionLiteral (ofLevels m) false) w.MovesFunction :=
    (w.toWindow.mirrorsAt n).functionLiteral (.inr rfl)
  have hmoved : Reaches w.target w.place (w.place + w.width) (functionLiteral (ofLevels m) false) (w.MovesFunction f) :=
    hmirrors f w.width hok (Nat.lt_succ_self _)
  refine reaches_assignmentRule (.inl w.closed) ?_ (by rw [hkind]; rfl) ?_
  . unfold Parser.startsArrow
    rw [hkind]
  . unfold primary
    refine .step Parser.peek_at ?_
    rw [show literal? (w.target.get w.place) = none by simp [literal?, hkind], hkind]
    exact hmoved.bind fun f' hf' => .pure ⟨f', rfl, hf'⟩

theorem reaches_arrow (hok : (arrowFunction (ofLevels n)).at w.source w.start = .ok (.function f, w.start + w.width)) (m : Nat)
    : Reaches w.target w.place (w.place + w.width) (assignmentRule (ofLevels m)) (w.IsMoved f) := by
  obtain ⟨ks, k, hhead, hks, hk⟩ := arrowFunction_begins _ _ hok
  have := hks.length
  obtain ⟨k, rfl⟩ := Nat.exists_eq_add_of_le (show w.start ≤ k by omega)
  have := w.knowsTarget
  have harrow := TokenStream.startsArrow_of_head hhead (w.toWindow.between (k := 0) hks (by omega))
  rw [Nat.add_zero] at harrow
  unfold assignmentRule
  refine .step Parser.atArrowFunction_at ?_
  rw [harrow]
  have hmoved : Reaches w.target w.place (w.place + w.width) (arrowFunction (ofLevels m)) (w.MovesExpr (.function f)) :=
    (w.toWindow.mirrorsAt n).arrowFunction (k := 0) (.function f) w.width hok (Nat.lt_succ_self _)
  refine hmoved.mono fun e he => ?_
  obtain ⟨hunplaced, hlocations⟩ := he
  cases e with
  | function f' => exact ⟨f', rfl, Expr.function.inj hunplaced, hlocations⟩
  | _ => cases hunplaced

/-- The script in parentheses is the function, or the parentheses nest it too deep. -/
theorem readAlone {sc : Script} (w : Excerpt sc.source.toList tokens i j)
    {ks : List TokenKind} (hks : Balanced ks) (hbetween : w.source.Between w.start (w.start + w.width) ks)
    (hloc : f.loc = (w.source.get i).loc.through (w.source.get (j - 1)).loc)
    (hend : (w.source.get i).loc.endOffset ≤ (w.source.get (j - 1)).loc.endOffset)
    (h : ∀ m, Reaches w.target w.place (w.place + w.width) (assignmentRule (ofLevels m)) (w.IsMoved f))
    : sc.ReadsAlone f := by
  have hoffset : f.loc.offset = (w.source.get i).loc.offset := by rw [hloc]; rfl
  have hlen : f.loc.len = (w.source.get (j - 1)).loc.endOffset - (w.source.get i).loc.offset := by
    rw [hloc, Location.through, Nat.max_eq_left hend]
  have htext : ("(" ++ sc.slice f.loc.offset f.loc.len ++ ")").toList =
      '(' :: (sc.source.toList.extract (w.source.get i).loc.offset (w.source.get (j - 1)).loc.endOffset ++ [')']) := by
    rw [String.toList_append, String.toList_append, Script.slice, String.toList_ofList, hoffset, hlen,
      List.extract_eq_take_drop, String.toList_ofList]
    rfl
  have hparse : parse ("(" ++ sc.slice f.loc.offset f.loc.len ++ ")") =
      ((script.at w.target 0).bind fun r => .ok r.1) := by
    unfold parse
    rw [htext, w.scanned, w.target_eq]
    rfl
  have hsize : 0 < w.target.tokens.size := by
    have := w.place_le
    have := w.place_eq
    omega
  have hclosed := w.closed
  have hended := w.ended
  rw [w.place_eq] at h hclosed
  rw [show w.width + 2 = 1 + w.width + 1 by omega] at hended
  unfold Script.ReadsAlone
  rw [hparse]
  rcases reaches_script_parens w.opened hsize hclosed hended (w.startsArrow_zero hks hbetween) h with
    ⟨_, hok, _, loc, rfl, f', rfl, hmoved⟩ | ⟨loc, hdeep⟩
  . refine .inl ⟨f', loc, by rw [hok]; rfl, ?_⟩
    have := hmoved
    unfold Window.MovesFunction at this
    rwa [w.offset_origin, w.offset_goal, ← hoffset] at this
  . exact .inr ⟨loc, by rw [hdeep]; rfl⟩

end Excerpt

theorem readsAlone_of_mem_functions {sc : Script} {stmts : List Stmt} (hparse : parse sc.source = .ok stmts) {f : Function}
    (hf : f ∈ Stmt.functionsAll stmts)
    : sc.ReadsAlone f := by
  obtain ⟨tokens, hscan, hsourced⟩ := parse_sourced hparse
  have hdivides := Token.divides_of_scan hscan
  have hended := hdivides.ended
  have hordered : ∀ {i j}, i < j → j < tokens.size →
      ((TokenStream.ofTokens tokens).get i).loc.endOffset ≤ ((TokenStream.ofTokens tokens).get (j - 1)).loc.endOffset := by
    intro i j hij hj
    rcases Nat.lt_or_eq_of_le (Nat.le_sub_one_of_lt hij) with hlt | rfl
    . rw [TokenStream.get_ofTokens_of_lt (by omega), TokenStream.get_ofTokens_of_lt (show j - 1 < tokens.size by omega)]
      exact Nat.le_trans (hdivides.endOffset_le hlt (by omega)) (Nat.le_add_right _ _)
    . exact Nat.le_refl _
  have hexcerpt : ∀ {i j ks}, i < j → j < tokens.size → (TokenStream.ofTokens tokens).Between i j ks → Balanced ks →
      f.loc = ((TokenStream.ofTokens tokens).get i).loc.through ((TokenStream.ofTokens tokens).get (j - 1)).loc →
      (∀ w : Excerpt sc.source.toList tokens i j, ∀ m,
        Reaches w.target w.place (w.place + w.width) (assignmentRule (ofLevels m)) (w.IsMoved f)) → sc.ReadsAlone f := by
    intro i j ks hij hj hbetween hks hloc h
    obtain ⟨w⟩ := exists_excerpt hscan hij hj
    refine w.readAlone hks ?_ (by rw [w.source_eq, hloc]) (by rw [w.source_eq]; exact hordered hij hj) (h w)
    rw [w.source_eq, w.start_eq, w.width_eq, Nat.add_sub_cancel' (Nat.le_of_lt hij)]
    exact hbetween
  cases hsourced.reads f hf with
  | @literal n i j named hi hok =>
    obtain ⟨ks, hbetween, hks⟩ := Closes.balances (d := 0) _ _ hok
    have hij : i < j := Takes.advances (n := 1) _ _ hok
    rcases (sourcedAt _ n).functionLiteral named i hi with ⟨_, _, hok', hj, -⟩ | ⟨e, herror, -⟩
    . cases hok.symm.trans hok'
      refine hexcerpt hij hj hbetween hks (functionLiteral_at hok).2 fun w m => ?_
      have hok' : (functionLiteral (ofLevels n) named).at w.source w.start = .ok (f, w.start + w.width) := by
        rw [w.source_eq, w.start_eq, w.width_eq, Nat.add_sub_cancel' (Nat.le_of_lt hij), hok]
      exact w.reaches_literal hok' m
    . cases hok.symm.trans herror
  | @arrow n i j hi hok =>
    obtain ⟨ks, hbetween, hks⟩ := Closes.balances (d := 0) _ _ hok
    have hij : i < j := Takes.advances (n := 1) _ _ hok
    rcases (sourcedAt _ n).arrowFunction i hi with ⟨_, _, hok', hj, -⟩ | ⟨e, herror, -⟩
    . cases hok.symm.trans hok'
      refine hexcerpt hij hj hbetween hks (arrowFunction_at hok) fun w m => w.reaches_arrow (n := n) ?_ m
      rw [w.source_eq, w.start_eq, w.width_eq, Nat.add_sub_cancel' (Nat.le_of_lt hij), hok]
    . cases hok.symm.trans herror

end ScriptHost
