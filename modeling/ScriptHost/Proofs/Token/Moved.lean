import ScriptHost.Proofs.Token.Local
import ScriptHost.Proofs.Token.Tiling

/-!
This module contains tokens in another place: a stretch of a script that begins with a token and ends with
one has the same tokens when it stands in parentheses as a script of its own.
-/

namespace ScriptHost.Token

/-- A token behind the point `p` and the same token behind the point `p'`, as far from there. -/
structure Moved (p p' : Cursor) (t t' : Token) : Prop where
  kind : t'.kind = t.kind
  len : t'.loc.len = t.loc.len
  offset : t'.loc.offset + p.offset = t.loc.offset + p'.offset
  line : t'.loc.line + p.line = t.loc.line + p'.line

theorem moved_span (p p' : Cursor) (cs : List Char) (kind : TokenKind) (len : Nat)
    : Moved p p' ⟨kind, (p.after cs).span len⟩ ⟨kind, (p'.after cs).span len⟩ := by
  refine ⟨rfl, rfl, ?_, ?_⟩
  . simp only [Cursor.span, Cursor.offset_after]
    omega
  . simp only [Cursor.span, Cursor.line_after]
    omega

theorem Moved.of_after {p p' : Cursor} {cs : List Char} {t t' : Token}
    (h : Moved (p.after cs) (p'.after cs) t t')
    : Moved p p' t t' := by
  obtain ⟨hkind, hlen, hoffset, hline⟩ := h
  rw [Cursor.offset_after, Cursor.offset_after] at hoffset
  rw [Cursor.line_after, Cursor.line_after] at hline
  exact ⟨hkind, hlen, by omega, by omega⟩

theorem Skip.congr {piece rest rest' : List Char} (h : Skip piece rest) (hrest : rest'.head? = rest.head?)
    : Skip piece rest' := by
  cases h with
  | blank hblank => exact .blank hblank
  | line hbody hends => exact .line hbody (hrest ▸ hends)
  | block hbody => exact .block hbody

theorem Gap.congr {gap rest rest' : List Char} (h : Gap gap rest) (hrest : rest'.head? = rest.head?)
    : Gap gap rest' := by
  induction h with
  | nil => exact .nil
  | @cons piece gap rest hfirst _ ih =>
    refine .cons (hfirst.congr ?_) (ih hrest)
    rw [List.head?_append, List.head?_append, hrest]

namespace Lexes

variable {p q : Cursor} {cs rest : List Char} {tokens tokens' : List Token}

/-- The tokens of a text are the same, moved, in front of another text and behind another point. -/
theorem moved (h : Lexes p cs tokens q rest) (p' : Cursor)
    : ∃ taken, cs = taken ++ rest ∧ q = p.after taken ∧ ∀ rest', Follows rest rest' →
        ∃ tokens', Lexes p' (taken ++ rest') tokens' (p'.after taken) rest' ∧
          List.Forall₂ (Moved p p') tokens tokens' := by
  induction h generalizing p' with
  | nil => exact ⟨[], rfl, rfl, fun rest' _ => ⟨[], .nil, .nil⟩⟩
  | @cons p q gap word cs rest c kind tokens hskipped hfirst _ ih =>
    obtain ⟨taken, rfl, rfl, htaken⟩ := ih (p'.after (gap ++ c :: word))
    refine ⟨gap ++ c :: word ++ taken, by simp, (Cursor.after_append ..).symm, fun rest' hrest => ?_⟩
    obtain ⟨tokens', hlexes, hmoved⟩ := htaken rest' hrest
    refine ⟨⟨kind, (p'.after gap).span (word.length + 1)⟩ :: tokens', ?_,
      .cons (moved_span ..) (hmoved.imp fun _ _ => Moved.of_after)⟩
    rw [Cursor.after_append,
      show gap ++ c :: word ++ taken ++ rest' = gap ++ c :: (word ++ (taken ++ rest')) by simp]
    exact .cons (hskipped.congr rfl) (scanPiece_append hfirst (hrest.head?_append taken)) hlexes

theorem append {q' : Cursor} {rest' : List Char} (h : Lexes p cs tokens q rest)
    (h' : Lexes q rest tokens' q' rest')
    : Lexes p cs (tokens ++ tokens') q' rest' := by
  induction h with
  | nil => exact h'
  | cons hskipped hfirst _ ih => exact .cons hskipped hfirst (ih h')

theorem split (h : Lexes p cs (tokens ++ tokens') q rest)
    : ∃ p' cs', Lexes p cs tokens p' cs' ∧ Lexes p' cs' tokens' q rest := by
  induction tokens generalizing p cs with
  | nil => exact ⟨p, cs, .nil, h⟩
  | cons t tokens ih =>
    cases h with
    | cons hskipped hfirst hothers =>
      obtain ⟨p', cs', hbefore, hbehind⟩ := ih hothers
      exact ⟨p', cs', .cons hskipped hfirst hbefore, hbehind⟩

/-- The last token ends where the rest begins. -/
theorem endOffset_getLast (h : Lexes p cs tokens q rest) (hne : tokens ≠ [])
    : (tokens.getLast hne).loc.endOffset = q.offset := by
  induction h with
  | nil => exact absurd rfl hne
  | @cons p q gap word cs rest c kind tokens _ _ hothers ih =>
    cases tokens with
    | nil =>
      cases hothers
      simp only [List.getLast_singleton, Location.endOffset, Cursor.span, Cursor.offset_after,
        List.length_append, List.length_cons]
      omega
    | cons t tokens => exact ih (List.cons_ne_nil t tokens)

/-- The gap in front of the first token may be left out. -/
theorem tight {t : Token} (h : Lexes p cs (t :: tokens) q rest)
    : ∃ gap cs', cs = gap ++ cs' ∧ Lexes (p.after gap) cs' (t :: tokens) q rest ∧
        (p.after gap).offset = t.loc.offset := by
  cases h with
  | @cons _ _ gap word cs _ c kind _ _ hfirst hothers =>
    rw [Cursor.after_append] at hothers
    exact ⟨gap, c :: (word ++ cs), rfl, .cons .nil hfirst hothers, rfl⟩

end Lexes

theorem scanFrom_gap {p : Cursor} {gap rest : List Char} (h : Gap gap rest) (acc : Array Token)
    : scanFrom p (gap ++ rest) acc = scanFrom (p.after gap) rest acc := by
  induction h generalizing p with
  | nil => rfl
  | @cons piece gap rest hfirst _ ih =>
    obtain ⟨c, piece, rfl⟩ : ∃ c tail, piece = c :: tail := by cases hfirst <;> exact ⟨_, _, rfl⟩
    rw [Cursor.after_append, ← ih, List.append_assoc, List.cons_append, scanFrom]
    simp only [scanPiece_of_skip hfirst, List.take_left, List.drop_left]
    rfl

theorem Lexes.scanFrom_eq {p q : Cursor} {cs rest : List Char} {tokens : List Token}
    (h : Lexes p cs tokens q rest) (acc : Array Token)
    : scanFrom p cs acc = scanFrom q rest (acc ++ tokens.toArray) := by
  induction h generalizing acc with
  | nil => simp
  | @cons p q gap word cs rest c kind tokens hskipped hfirst _ ih =>
    rw [scanFrom_gap hskipped, scanFrom]
    simp only [hfirst, List.take_left, List.drop_left]
    rw [after_next, ← Cursor.after_append, ih]
    simp

theorem scan_of_lexes {text : List Char} {q : Cursor} {tokens : List Token} (h : Lexes {} text tokens q [])
    (hshebang : shebangLength text = 0)
    : scan text = .ok (tokens ++ [Token.mk .endOfInput (q.span 0)]).toArray := by
  unfold scan
  dsimp only
  rw [hshebang, List.take_zero, List.drop_zero]
  refine (h.scanFrom_eq #[]).trans ?_
  rw [scanFrom]
  simp

/-- The point behind the parenthesis that a text begins with. -/
def behindParen : Cursor := Cursor.after {} ['(']

theorem lexes_single {p : Cursor} {c : Char} {s : Symbol} (cs : List Char)
    (h : ∀ cs, scanPiece c cs = .token (.symbol s) 0)
    : Lexes p (c :: cs) [⟨.symbol s, p.span 1⟩] (p.after [c]) cs :=
  @Lexes.cons p _ [] [] cs cs c (.symbol s) [] .nil (h cs) .nil

theorem scanPiece_leftParen (cs : List Char) : scanPiece '(' cs = .token (.symbol .leftParen) 0 := by
  have hblank : Text.isBlank '(' = false := by decide
  have hname : isNameStart '(' = false := by decide
  simp [scanPiece, startsNumber, hblank, hname, scanSymbol, scanSymbol.scanSingle]

theorem scanPiece_rightParen (cs : List Char) : scanPiece ')' cs = .token (.symbol .rightParen) 0 := by
  have hblank : Text.isBlank ')' = false := by decide
  have hname : isNameStart ')' = false := by decide
  simp [scanPiece, startsNumber, hblank, hname, scanSymbol, scanSymbol.scanSingle]

/-- Where the text of some tokens begins that follow each other. -/
theorem lexes_of_scan {text : List Char} {tokens : Array Token} {before inner behind : List Token} {t : Token}
    (h : scan text = .ok tokens) (htokens : tokens.toList = before ++ t :: inner ++ behind)
    (hbehind : behind ≠ [])
    : ∃ skipped cs q rest, text = skipped ++ cs ∧ Lexes (Cursor.after {} skipped) cs (t :: inner) q rest ∧
        skipped.length = t.loc.offset := by
  obtain ⟨result, hresult, hscan⟩ := scan_result text
  rw [h] at hscan
  cases hresult with
  | error => cases hscan
  | @ok q tokens hreaches =>
    cases hscan
    obtain @⟨q, gap, _, hlexed, -⟩ := hreaches
    have hdrop := congrArg List.dropLast htokens
    rw [List.dropLast_append_of_ne_nil hbehind, List.dropLast_concat] at hdrop
    rw [hdrop] at hlexed
    obtain ⟨q, rest, hlexed, -⟩ := hlexed.split
    obtain ⟨p, cs, hbefore, hlexed⟩ := hlexed.split
    obtain ⟨gap, cs, rfl, hlexed, hoffset⟩ := hlexed.tight
    obtain ⟨taken, htaken, rfl⟩ := hbefore.after
    rw [← Cursor.after_append, ← Cursor.after_append] at hlexed hoffset
    refine ⟨_, cs, q, rest, ?_, hlexed, ?_⟩
    . rw [List.append_assoc, List.append_assoc, ← htaken, List.take_append_drop]
    . rw [← hoffset, Cursor.offset_after, Nat.zero_add]

/--
Some tokens of a text that follow each other, and the text from the first of them to the last one in a pair of
parentheses: its tokens are the same, between those of the parentheses.
-/
theorem scan_parenthesized {text : List Char} {tokens : Array Token} {before inner behind : List Token}
    (h : scan text = .ok tokens) (htokens : tokens.toList = before ++ inner ++ behind) (hinner : inner ≠ [])
    (hbehind : behind ≠ [])
    : ∃ p inner' left right last, p.offset = (inner.head hinner).loc.offset ∧
        List.Forall₂ (Moved p behindParen) inner inner' ∧
        scan ('(' :: (text.extract (inner.head hinner).loc.offset (inner.getLast hinner).loc.endOffset ++
            [')'])) =
          .ok (⟨.symbol .leftParen, left⟩ ::
            (inner' ++ [⟨.symbol .rightParen, right⟩, ⟨.endOfInput, last⟩])).toArray := by
  obtain ⟨t, inner, rfl⟩ := List.exists_cons_of_ne_nil hinner
  obtain ⟨skipped, cs, q, rest, rfl, hlexed, hskipped⟩ := lexes_of_scan h htokens hbehind
  have hend := hlexed.endOffset_getLast hinner
  obtain ⟨taken, rfl, rfl, hmoved⟩ := hlexed.moved behindParen
  obtain ⟨inner', hlexes, hmoved⟩ := hmoved [')'] (.inr fun c hc => .inl (Option.some.inj hc).symm)
  have hoffset : (Cursor.after {} skipped).offset = t.loc.offset := by
    rw [Cursor.offset_after, ← hskipped, Nat.zero_add]
  have hslice : (skipped ++ (taken ++ rest)).extract t.loc.offset
      ((t :: inner).getLast hinner).loc.endOffset = taken := by
    rw [hend, Cursor.offset_after, hoffset, ← hskipped, List.extract_eq_take_drop, List.drop_left,
      Nat.add_sub_cancel_left, List.take_left]
  have hall : Lexes {} ('(' :: (taken ++ [')'])) _ _ [] :=
    (lexes_single _ scanPiece_leftParen).append (hlexes.append (lexes_single [] scanPiece_rightParen))
  have hscan := scan_of_lexes hall (if_neg (by simp))
  rw [List.append_assoc, List.append_assoc] at hscan
  simp only [List.head_cons, hslice]
  exact ⟨_, inner', _, _, _, hoffset, hmoved, hscan⟩

end ScriptHost.Token
