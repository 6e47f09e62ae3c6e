import Mathlib.Data.List.Chain
import Mathlib.Data.List.Induction
import ScriptHost.Proofs.Token.Piece

/-!
This module contains the division of a script: its tokens lie in order, what stands between them is
skipped, and every location tells the line and the column of its offset.
-/

namespace ScriptHost

/-- The line and the column of a location are those of its offset in a text, and it ends within the text. -/
structure Location.Fits (l : Location) (text : List Char) : Prop where
  line_eq : l.line = 1 + (text.take l.offset).count '\n'
  column_eq : l.column = 1 + ((text.take l.offset).reverse.takeWhile (· ≠ '\n')).length
  end_le : l.endOffset ≤ text.length

namespace Cursor

theorem line_after (p : Cursor) (cs : List Char) : (p.after cs).line = p.line + cs.count '\n' := by
  induction cs generalizing p with
  | nil => rfl
  | cons c cs ih =>
    have : (p.next c).line = p.line + [c].count '\n' := by
      by_cases hc : c = '\n' <;> simp [next, hc]
    simp only [after, List.foldl_cons] at ih ⊢
    have happend : ([c] ++ cs).count '\n' = [c].count '\n' + cs.count '\n' := List.count_append
    rw [List.singleton_append] at happend
    rw [ih, this, happend]
    omega

theorem column_after (cs : List Char)
    : (Cursor.after {} cs).column = 1 + (cs.reverse.takeWhile (· ≠ '\n')).length := by
  induction cs using List.reverseRecOn with
  | nil => rfl
  | append_singleton cs c ih =>
    rw [after_append]
    simp only [after, List.foldl_cons, List.foldl_nil] at ih ⊢
    by_cases hc : c = '\n'
    . simp [next, hc]
    . simp only [next, hc, if_false, ih]
      simp [hc]
      omega

theorem fits_span {text before rest : List Char} {len : Nat} (htext : text = before ++ rest)
    (hlen : len ≤ rest.length)
    : ((Cursor.after {} before).span len).Fits text := by
  have hoffset : (Cursor.after {} before).offset = before.length := by simp [offset_after]
  have htake : text.take (Cursor.after {} before).offset = before := by
    rw [htext, hoffset, List.take_left]
  refine ⟨?_, ?_, ?_⟩
  . simp only [span, htake, line_after]
  . simp only [span, htake, column_after]
  . simp only [Location.endOffset, span, hoffset, htext, List.length_append]
    omega

end Cursor

namespace Token

/--
The tokens of a text from the point `p` on, each of them behind a gap. The text `rest` at the point
`q` is left behind the last of them.
-/
inductive Lexes : Cursor → List Char → List Token → Cursor → List Char → Prop
  | nil {p : Cursor} {cs : List Char} : Lexes p cs [] p cs
  | cons {p q : Cursor} {gap word cs rest : List Char} {c : Char} {kind : TokenKind} {tokens : List Token}
    (skipped : Gap gap (c :: (word ++ cs))) (first : scanPiece c (word ++ cs) = .token kind word.length)
    (others : Lexes (p.after (gap ++ c :: word)) cs tokens q rest)
    : Lexes p (gap ++ c :: (word ++ cs)) (⟨kind, (p.after gap).span (word.length + 1)⟩ :: tokens) q rest

/-- The tokens of a text up to the text `rest` at the point `q`, which may stand behind a gap. -/
inductive Reaches (p : Cursor) (cs : List Char) (tokens : List Token) : Cursor → List Char → Prop
  | intro {q : Cursor} {gap rest : List Char} (lexed : Lexes p cs tokens q (gap ++ rest)) (skipped : Gap gap rest)
    : Reaches p cs tokens (q.after gap) rest

theorem Reaches.skip {p q : Cursor} {piece cs rest : List Char} {tokens : List Token}
    (h : Reaches (p.after piece) cs tokens q rest) (hpiece : Skip piece cs)
    : Reaches p (piece ++ cs) tokens q rest := by
  obtain ⟨hlexed, hgap⟩ := h
  cases hlexed with
  | nil =>
    rw [← Cursor.after_append, ← List.append_assoc]
    exact ⟨by rw [List.append_assoc]; exact .nil, .cons hpiece hgap⟩
  | cons hskipped hfirst hothers =>
    rw [← List.append_assoc, ← Cursor.after_append]
    rw [← Cursor.after_append, ← List.append_assoc] at hothers
    exact ⟨.cons (.cons hpiece hskipped) hfirst hothers, hgap⟩

theorem Reaches.cons {p q : Cursor} {word cs rest : List Char} {c : Char} {kind : TokenKind}
    {tokens : List Token} (h : Reaches (p.after (c :: word)) cs tokens q rest)
    (hfirst : scanPiece c (word ++ cs) = .token kind word.length)
    : Reaches p (c :: (word ++ cs)) (⟨kind, p.span (word.length + 1)⟩ :: tokens) q rest := by
  obtain ⟨hlexed, hgap⟩ := h
  exact ⟨.cons .nil hfirst hlexed, hgap⟩

/-- What the scan of a text from the point `p` on gives. -/
inductive Result (p : Cursor) (cs : List Char) : Except SyntaxError (List Token) → Prop
  | ok {q : Cursor} {tokens : List Token} (h : Reaches p cs tokens q [])
    : Result p cs (.ok (tokens ++ [⟨.endOfInput, q.span 0⟩]))
  | error {q : Cursor} {tokens : List Token} {c : Char} {rest : List Char} {fault : SyntaxFault} {more : Nat}
    (h : Reaches p cs tokens q (c :: rest)) (hfault : scanPiece c rest = .fault fault more)
    : Result p cs (.error ⟨fault, q.span (more + 1)⟩)

theorem after_next (p : Cursor) (c : Char) (cs : List Char) : (p.next c).after cs = p.after (c :: cs) := rfl

theorem scanFrom_result (p : Cursor) (cs : List Char) (acc : Array Token)
    : ∃ result, Result p cs result ∧
      scanFrom p cs acc = result.map fun tokens => acc ++ tokens.toArray := by
  fun_induction scanFrom p cs acc with
  | case1 p acc => exact ⟨_, .ok ⟨.nil, .nil⟩, by simp [Except.map, Cursor.after]⟩
  | case2 p acc c cs more hpiece ih =>
    obtain ⟨hle, hskip⟩ : (Piece.gap more).Sound c cs := hpiece ▸ sound_scanPiece c cs
    obtain ⟨result, hresult, hscan⟩ := ih
    refine ⟨result, ?_, hscan⟩
    have hcs : c :: cs = (c :: cs.take more) ++ cs.drop more := by simp
    rw [after_next] at hresult
    rw [hcs]
    cases hresult with
    | ok h => exact .ok (h.skip hskip)
    | error h hfault => exact .error (h.skip hskip) hfault
  | case3 p acc c cs kind more hpiece ih =>
    obtain ⟨hle, -⟩ : (Piece.token kind more).Sound c cs := hpiece ▸ sound_scanPiece c cs
    obtain ⟨result, hresult, hscan⟩ := ih
    obtain ⟨word, rest, rfl, rfl⟩ : ∃ word rest, cs = word ++ rest ∧ more = word.length :=
      ⟨cs.take more, cs.drop more, by simp, by simp [hle]⟩
    simp only [List.take_left, List.drop_left] at hresult
    refine ⟨result.map (⟨kind, p.span (word.length + 1)⟩ :: ·), ?_, ?_⟩
    . cases hresult with
      | ok h => exact .ok (h.cons hpiece)
      | error h hfault => exact .error (h.cons hpiece) hfault
    . rw [hscan]
      cases result <;> simp [Except.map]
  | case4 p acc c cs fault more hpiece => exact ⟨_, .error ⟨.nil, .nil⟩ hpiece, rfl⟩

/-- A line that starts with `#!`, in front of the text `rest`. -/
inductive Shebang : List Char → List Char → Prop
  | intro {body rest : List Char} (body_ne : '\n' ∉ body) (ends : ∀ c ∈ rest.head?, c = '\n')
    : Shebang ('#' :: '!' :: body) rest

theorem shebangLength_spec (cs : List Char)
    : shebangLength cs ≤ cs.length ∧
      (shebangLength cs = 0 ∨ Shebang (cs.take (shebangLength cs)) (cs.drop (shebangLength cs))) := by
  unfold shebangLength
  split
  . next htake =>
    obtain ⟨body, rest, rfl, hlength, hbody, hrest⟩ := restOfLine_spec cs
    rw [hlength, List.take_left, List.drop_left]
    refine ⟨by simp, .inr ?_⟩
    match body with
    | c :: d :: body =>
      cases htake
      exact .intro (fun h => hbody (by simp [h])) hrest
    | [c] => cases rest <;> simp_all
    | [] => cases rest <;> simp_all
  . exact ⟨Nat.zero_le _, .inl rfl⟩

/--
A division of a text into tokens, of which the last one marks the end. The gap in front of the first
one begins at the offset `start`.
-/
structure Divides (text : List Char) (start : Nat) (tokens : List Token) : Prop where
  ordered : tokens.Pairwise fun t u => t.loc.endOffset ≤ u.loc.offset
  first : ∀ t ∈ tokens.head?, start ≤ t.loc.offset ∧
    Gap (text.extract start t.loc.offset) (text.drop t.loc.offset)
  between : tokens.IsChain fun t u =>
    Gap (text.extract t.loc.endOffset u.loc.offset) (text.drop u.loc.offset)
  proper : ∀ t ∈ tokens.dropLast, t.kind ≠ .endOfInput ∧ 0 < t.loc.len
  one_line : ∀ t ∈ tokens.dropLast, '\n' ∈ text.extract t.loc.offset t.loc.endOffset → ∃ s, t.kind = .string s
  last : ∃ loc, tokens.getLast? = some ⟨.endOfInput, loc⟩ ∧ loc.offset = text.length ∧ loc.len = 0
  fits : ∀ t ∈ tokens, t.loc.Fits text

theorem divides_end {before gap : List Char} (hgap : Gap gap [])
    : Divides (before ++ gap) before.length [⟨.endOfInput, (Cursor.after {} (before ++ gap)).span 0⟩] := by
  have hoffset : (Cursor.after {} (before ++ gap)).offset = (before ++ gap).length := by
    simp [Cursor.offset_after]
  refine ⟨by simp, fun t ht => ?_, by simp, by simp, by simp, ⟨_, rfl, hoffset, rfl⟩, fun t ht => ?_⟩
  . cases ht
    simp only [Cursor.span, hoffset, List.drop_length, List.extract_eq_take_drop]
    refine ⟨by simp, ?_⟩
    rw [List.drop_left, List.take_of_length_le (by simp)]
    exact hgap
  . rw [List.mem_singleton.1 ht]
    exact Cursor.fits_span (List.append_nil _).symm (Nat.le_refl _)

theorem Divides.start_le {text : List Char} {start : Nat} {tokens : List Token}
    (h : Divides text start tokens)
    : ∀ t ∈ tokens, start ≤ t.loc.offset := by
  cases tokens with
  | nil => simp
  | cons t tokens =>
    have hfirst := (h.first t rfl).1
    rintro u (_ | ⟨_, hu⟩)
    . exact hfirst
    . have := (List.pairwise_cons.1 h.ordered).1 u hu
      exact Nat.le_trans hfirst (Nat.le_trans (Nat.le_add_right _ _) this)

theorem Divides.cons {before gap word cs : List Char} {c : Char} {kind : TokenKind} {tokens : List Token}
    {text : List Char} (htext : text = before ++ (gap ++ c :: (word ++ cs)))
    (h : Divides text (before ++ (gap ++ c :: word)).length tokens)
    (hgap : Gap gap (c :: (word ++ cs))) (hword : IsWord kind (c :: word))
    : Divides text before.length
      (⟨kind, (Cursor.after {} (before ++ gap)).span (word.length + 1)⟩ :: tokens) := by
  have hoffset : (Cursor.after {} (before ++ gap)).offset = before.length + gap.length := by
    simp [Cursor.offset_after]
  have hend : ((Cursor.after {} (before ++ gap)).span (word.length + 1)).endOffset =
      (before ++ (gap ++ c :: word)).length := by
    simp only [Location.endOffset, Cursor.span, hoffset, List.length_append, List.length_cons]
    omega
  have hdrop : text.drop (before.length + gap.length) = c :: (word ++ cs) := by
    rw [htext, ← List.append_assoc, ← List.length_append, List.drop_left]
  have hne : tokens ≠ [] := by
    rintro rfl
    obtain ⟨loc, hloc, -⟩ := h.last
    simp at hloc
  refine ⟨?_, ?_, ?_, ?_, ?_, ?_, ?_⟩
  . exact List.pairwise_cons.2 ⟨fun u hu => hend ▸ h.start_le u hu, h.ordered⟩
  . rintro t ⟨⟩
    simp only [Cursor.span, hoffset, hdrop, List.extract_eq_take_drop]
    refine ⟨Nat.le_add_right _ _, ?_⟩
    rw [htext, List.drop_left, Nat.add_sub_cancel_left, List.take_left]
    exact hgap
  . refine List.isChain_cons.2 ⟨fun u hu => ?_, h.between⟩
    rw [hend]
    exact (h.first u hu).2
  . rw [List.dropLast_cons_of_ne_nil hne]
    rintro t (_ | ⟨_, ht⟩)
    . exact ⟨hword.ne_end, Nat.succ_pos _⟩
    . exact h.proper t ht
  . rw [List.dropLast_cons_of_ne_nil hne]
    rintro t (_ | ⟨_, ht⟩)
    . have htext' : text = (before ++ gap) ++ ((c :: word) ++ cs) := by simp [htext]
      have hlength : (before ++ (gap ++ c :: word)).length - (before.length + gap.length) = (c :: word).length := by
        simp only [List.length_append, List.length_cons]
        omega
      rw [hend, List.extract_eq_take_drop]
      simp only [Cursor.span, hoffset]
      rw [hlength, htext', ← List.length_append, List.drop_left, List.take_left]
      exact hword.one_line
    . exact h.one_line t ht
  . obtain ⟨loc, hloc, hlast⟩ := h.last
    exact ⟨loc, by rw [List.getLast?_cons, hloc]; rfl, hlast⟩
  . rintro t (_ | ⟨_, ht⟩)
    . have hsplit : text = (before ++ gap) ++ c :: (word ++ cs) := by simp [htext]
      exact Cursor.fits_span hsplit (by simp)
    . exact h.fits t ht

theorem Lexes.divides {before cs rest : List Char} {p q : Cursor} {tokens : List Token} {text : List Char}
    (h : Lexes p cs tokens q rest) (hp : p = Cursor.after {} before) (htext : text = before ++ cs)
    (hgap : Gap rest [])
    : Divides text before.length (tokens ++ [⟨.endOfInput, (q.after rest).span 0⟩]) := by
  induction h generalizing before with
  | nil =>
    subst hp
    rw [htext, ← Cursor.after_append]
    exact divides_end hgap
  | @cons p q gap word cs rest c kind tokens hskipped hfirst hothers ih =>
    subst hp
    rw [← Cursor.after_append] at ih
    rw [← Cursor.after_append]
    have hword : IsWord kind (c :: (word ++ cs).take word.length) :=
      (hfirst ▸ sound_scanPiece c (word ++ cs) : (Piece.token kind word.length).Sound c (word ++ cs)).2
    rw [List.take_left] at hword
    exact .cons htext (ih rfl (by simp [htext]) hgap) hskipped hword

/-- A text leads to each point that is reached in it. -/
theorem Lexes.after {p q : Cursor} {cs rest : List Char} {tokens : List Token} (h : Lexes p cs tokens q rest)
    : ∃ taken, cs = taken ++ rest ∧ q = p.after taken := by
  induction h with
  | nil => exact ⟨[], rfl, rfl⟩
  | @cons p q gap word cs rest c kind tokens _ _ _ ih =>
    obtain ⟨taken, rfl, rfl⟩ := ih
    exact ⟨gap ++ c :: word ++ taken, by simp, by rw [← Cursor.after_append]⟩

theorem Lexes.length_le {p q : Cursor} {cs rest : List Char} {tokens : List Token} (h : Lexes p cs tokens q rest)
    : tokens.length + rest.length ≤ cs.length := by
  induction h with
  | nil => simp
  | cons _ _ _ ih =>
    simp only [List.length_cons, List.length_append]
    omega

theorem scan_result (text : List Char)
    : ∃ result, Result (Cursor.after {} (text.take (shebangLength text))) (text.drop (shebangLength text)) result ∧
      scan text = result.map List.toArray := by
  obtain ⟨result, hresult, hscan⟩ := scanFrom_result
    (Cursor.after {} (text.take (shebangLength text))) (text.drop (shebangLength text)) #[]
  refine ⟨result, hresult, hscan.trans ?_⟩
  cases result <;> simp [Except.map]

theorem divides_of_scan {text : List Char} {tokens : Array Token} (h : scan text = .ok tokens)
    : Divides text (shebangLength text) tokens.toList := by
  obtain ⟨result, hresult, hscan⟩ := scan_result text
  rw [h] at hscan
  cases hresult with
  | ok hreaches =>
    cases hscan
    obtain ⟨hlexed, hgap⟩ := hreaches
    have := hlexed.divides rfl (List.take_append_drop (shebangLength text) text).symm (by simpa using hgap)
    simpa [List.length_take_of_le (shebangLength_spec text).1] using this
  | error => cases hscan

theorem size_le_of_scan {text : List Char} {tokens : Array Token} (h : scan text = .ok tokens)
    : tokens.size ≤ text.length + 1 := by
  obtain ⟨result, hresult, hscan⟩ := scan_result text
  rw [h] at hscan
  cases hresult with
  | ok hreaches =>
    cases hscan
    obtain ⟨hlexed, hgap⟩ := hreaches
    have hlength := hlexed.length_le
    simp only [List.length_drop] at hlength
    simp only [List.size_toArray, List.length_append, List.length_singleton]
    omega
  | error => cases hscan

theorem fits_of_scan {text : List Char} {e : SyntaxError} (h : scan text = .error e) : e.loc.Fits text := by
  obtain ⟨result, hresult, hscan⟩ := scan_result text
  rw [h] at hscan
  cases hresult with
  | ok => cases hscan
  | @error q tokens c rest fault more hreaches hfault =>
    cases hscan
    obtain @⟨q, gap, _, hlexed, hgap⟩ := hreaches
    obtain ⟨taken, htaken, rfl⟩ := hlexed.after
    have hmore : more ≤ rest.length :=
      (hfault ▸ sound_scanPiece c rest : (Piece.fault fault more).Sound c rest)
    have hsplit : text = (text.take (shebangLength text) ++ (taken ++ gap)) ++ c :: rest := by
      rw [List.append_assoc, List.append_assoc, ← htaken, List.take_append_drop]
    rw [← Cursor.after_append, ← Cursor.after_append]
    exact Cursor.fits_span hsplit (Nat.succ_le_succ hmore)

theorem scan_divides (text : List Char)
    : match scan text with
      | .ok tokens => ∃ start, (start = 0 ∨ Shebang (text.take start) (text.drop start)) ∧
        Divides text start tokens.toList
      | .error e => e.loc.Fits text := by
  cases h : scan text with
  | ok tokens => exact ⟨_, (shebangLength_spec text).2, divides_of_scan h⟩
  | error e => exact fits_of_scan h

end Token
end ScriptHost
