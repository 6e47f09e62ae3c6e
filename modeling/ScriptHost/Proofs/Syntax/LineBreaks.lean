import ScriptHost.Proofs.Syntax.At
import ScriptHost.Proofs.Token.Tiling

/-!
This module contains where the semicolon of a statement may be missing. The next token counts as one on
a later line if the token before it starts on an earlier one, so a line break within that token counts
too; only a string can contain one.
-/

namespace ScriptHost

/-- Where one place is on a later line than an earlier one, there is a line break between them. -/
theorem Location.Fits.line_lt_iff {text : List Char} {l l' : Location} (h : l.Fits text) (h' : l'.Fits text)
    (hle : l.offset ≤ l'.offset)
    : l.line < l'.line ↔ '\n' ∈ text.extract l.offset l'.offset := by
  have htake : text.take l'.offset = text.take l.offset ++ text.extract l.offset l'.offset := by
    rw [List.extract_eq_take_drop, ← List.take_add, Nat.add_sub_cancel' hle]
  rw [h.line_eq, h'.line_eq, htake, List.count_append, ← List.count_pos_iff]
  omega

theorem extract_append_extract {α : Type} (l : List α) {i j k : Nat} (hij : i ≤ j) (hjk : j ≤ k)
    : l.extract i j ++ l.extract j k = l.extract i k := by
  obtain ⟨m, rfl⟩ := Nat.exists_eq_add_of_le hij
  obtain ⟨n, rfl⟩ := Nat.exists_eq_add_of_le hjk
  rw [List.extract_eq_take_drop, List.extract_eq_take_drop, List.extract_eq_take_drop,
    Nat.add_sub_cancel_left, Nat.add_sub_cancel_left, Nat.add_assoc, Nat.add_sub_cancel_left,
    List.take_add, List.drop_drop]

namespace Token.Divides

variable {text : List Char} {start : Nat} {tokens : Array Token} {i : Nat}

theorem next_line_iff (h : Divides text start tokens.toList) (hi : i + 1 < tokens.size)
    : tokens[i].loc.line < tokens[i + 1].loc.line ↔
      '\n' ∈ text.extract tokens[i].loc.offset tokens[i].loc.endOffset ∨
      '\n' ∈ text.extract tokens[i].loc.endOffset tokens[i + 1].loc.offset := by
  have hmem : ∀ {j} (hj : j < tokens.size), tokens[j] ∈ tokens.toList := fun hj => by simp
  have hordered : tokens[i].loc.endOffset ≤ tokens[i + 1].loc.offset := by
    have := List.pairwise_iff_getElem.1 h.ordered i (i + 1) (by simp; omega) (by simpa using hi) (by omega)
    simpa using this
  have hstart : tokens[i].loc.offset ≤ tokens[i].loc.endOffset := Nat.le_add_right _ _
  rw [(h.fits _ (hmem _)).line_lt_iff (h.fits _ (hmem _)) (Nat.le_trans hstart hordered),
    ← extract_append_extract text hstart hordered, List.mem_append]

theorem string_of_line_break (h : Divides text start tokens.toList) (hi : i + 1 < tokens.size)
    (hbreak : '\n' ∈ text.extract tokens[i].loc.offset tokens[i].loc.endOffset)
    : ∃ value, tokens[i].kind = .string value := by
  refine h.one_line _ ?_ hbreak
  rw [List.mem_iff_getElem]
  exact ⟨i, by simp; omega, by simp⟩

end Token.Divides

namespace Parser

theorem semicolon_scan {text : List Char} {tokens : Array Token} {i : Nat}
    (hscan : Token.scan text = .ok tokens) (hi : i + 1 < tokens.size)
    : let inWord := '\n' ∈ text.extract tokens[i].loc.offset tokens[i].loc.endOffset
      let inGap := '\n' ∈ text.extract tokens[i].loc.endOffset tokens[i + 1].loc.offset
      let next := tokens[i + 1].kind
      lineBreakBefore.at (.ofTokens tokens) (i + 1) = .ok (decide (inWord ∨ inGap), i + 1) ∧
      (inWord → ∃ value, tokens[i].kind = .string value) ∧
      ∀ j, semicolon.at (.ofTokens tokens) (i + 1) = .ok ((), j) ↔
        next = .symbol .semicolon ∧ j = i + 2 ∨
        next ≠ .symbol .semicolon ∧ j = i + 1 ∧
          (next = .symbol .rightBrace ∨ next = .endOfInput ∨ inWord ∨ inGap) := by
  have hdivides := Token.divides_of_scan hscan
  have hline := hdivides.next_line_iff hi
  have hprevious : (TokenStream.ofTokens tokens).get (i + 1 - 1) = tokens[i] :=
    TokenStream.get_eq_getElem (s := .ofTokens tokens) (Nat.lt_of_succ_lt hi)
  have hnext : (TokenStream.ofTokens tokens).get (i + 1) = tokens[i + 1] :=
    TokenStream.get_eq_getElem (s := .ofTokens tokens) hi
  refine ⟨?_, hdivides.string_of_line_break hi, fun j => ?_⟩
  . rw [lineBreakBefore_at, hprevious, hnext]
    simp only [hline, Nat.succ_pos, decide_true, Bool.true_and]
  . rw [semicolon_at, hprevious, hnext]
    simp only [hline, Nat.succ_pos, true_and]
    split
    . next hsemicolon => simp [hsemicolon, eq_comm]
    split
    . next hsemicolon hmissing => simpa [hsemicolon, eq_comm] using fun _ => hmissing
    . next hsemicolon hmissing => simp [hsemicolon, hmissing]

/-- A script whose string literal goes on in its second line, where another statement begins. -/
def joinedScript : String := "var a = 'x\\\ny' var b;"

def joinedTokens : Array Token := #[
  ⟨.keyword .var, ⟨1, 1, 0, 3⟩⟩, ⟨.name "a", ⟨1, 5, 4, 1⟩⟩, ⟨.symbol .assign, ⟨1, 7, 6, 1⟩⟩,
  ⟨.string "xy", ⟨1, 9, 8, 6⟩⟩, ⟨.keyword .var, ⟨2, 4, 15, 3⟩⟩, ⟨.name "b", ⟨2, 8, 19, 1⟩⟩,
  ⟨.symbol .semicolon, ⟨2, 9, 20, 1⟩⟩, ⟨.endOfInput, ⟨2, 10, 21, 0⟩⟩]

theorem scan_joinedScript : Token.scan joinedScript.toList = .ok joinedTokens := by
  decide +kernel

theorem semicolon_scan_joined
    : Token.scan joinedScript.toList = .ok joinedTokens ∧ 4 < joinedTokens.size ∧
      lineBreakBefore.at (.ofTokens joinedTokens) 4 = .ok (true, 4) ∧
      semicolon.at (.ofTokens joinedTokens) 4 = .ok ((), 4) := by
  obtain ⟨hbreak, -, hsemicolon⟩ := semicolon_scan (i := 3) scan_joinedScript (by decide)
  exact ⟨scan_joinedScript, by decide, hbreak.trans (by decide +kernel), (hsemicolon 4).2 (by decide +kernel)⟩

/-- A line break does not stand between the two tokens wherever one is found before the second. -/
theorem not_lineBreakBefore_iff_gap
    : ¬ ∀ (text : List Char) (tokens : Array Token) (i : Nat) (_ : Token.scan text = .ok tokens)
        (_ : i + 1 < tokens.size),
        lineBreakBefore.at (.ofTokens tokens) (i + 1) =
          .ok (decide ('\n' ∈ text.extract tokens[i].loc.endOffset tokens[i + 1].loc.offset), i + 1) := by
  intro h
  have hgap := h joinedScript.toList joinedTokens 3 scan_joinedScript (by decide)
  rw [lineBreakBefore_at] at hgap
  exact absurd hgap (by decide +kernel)

end Parser
end ScriptHost
