import ScriptHost.Proofs.Token.Numeral

/-!
This module contains what the scan of a script may find at a point: it stays within the text, it skips
exactly the blanks and the complete comments, and only a string takes a line break into a token.
-/

namespace ScriptHost.Token

/-- A text that separates tokens, in front of the text `rest`: a blank, a line comment or a block comment. -/
inductive Skip : List Char → List Char → Prop
  | blank {c : Char} {rest : List Char} (blank : Text.isBlank c) : Skip [c] rest
  | line {body rest : List Char} (body_ne : '\n' ∉ body) (ends : ∀ c ∈ rest.head?, c = '\n')
    : Skip ('/' :: '/' :: body) rest
  | block {body rest : List Char} (open_ : ¬ ['*', '/'] <:+: body)
    : Skip ('/' :: '*' :: (body ++ ['*', '/'])) rest

/-- A text between tokens, in front of the text `rest`. -/
inductive Gap : List Char → List Char → Prop
  | nil {rest : List Char} : Gap [] rest
  | cons {piece gap rest : List Char} (first : Skip piece (gap ++ rest)) (others : Gap gap rest)
    : Gap (piece ++ gap) rest

/-- What a literal can be that has `len` characters left behind the first `taken` ones. -/
def Piece.Literal (taken len : Nat) : Piece → Prop
  | .gap _ => False
  | .token kind more => (∃ s, kind = .string s) ∧ taken < more ∧ more ≤ taken + len
  | .fault _ more => more ≤ taken + len

theorem Piece.Literal.mono {piece : Piece} {taken taken' len len' : Nat} (h : piece.Literal taken len)
    (htaken : taken' ≤ taken) (hlen : taken + len ≤ taken' + len')
    : piece.Literal taken' len' := by
  cases piece with
  | gap more => exact h
  | token kind more =>
    obtain ⟨hkind, hlt, hle⟩ := h
    exact ⟨hkind, by omega, by omega⟩
  | fault fault more =>
    have : more ≤ taken + len := h
    show more ≤ taken' + len'
    omega

/-- An escape fails where digits are missing, or where there is no character of that number. -/
theorem scanEscape_cases (n : Nat) (cs : List Char)
    : scanEscape n cs
          = .error (.badHexEscape, min (((cs.take n).takeWhile Text.isHexDigit).length + 1) cs.length) ∨
      n ≤ cs.length ∧ (scanEscape n cs = .error (.badUnicodeEscape, n) ∨ ∃ c, scanEscape n cs = .ok c) := by
  unfold scanEscape
  dsimp only
  by_cases hlen : ((cs.take n).takeWhile Text.isHexDigit).length < n
  . exact .inl (if_pos hlen)
  . right
    have hprefix := (List.takeWhile_prefix Text.isHexDigit (l := cs.take n)).length_le
    rw [List.length_take] at hprefix
    refine ⟨by omega, ?_⟩
    rw [if_neg hlen]
    by_cases hvalid : (Text.ofHexDigits ((cs.take n).takeWhile Text.isHexDigit)).isValidChar
    . exact .inr ⟨_, dif_pos hvalid⟩
    . exact .inl (dif_neg hvalid)

theorem scanEscape_error {n k : Nat} {cs : List Char} {fault : SyntaxFault}
    (h : scanEscape n cs = .error (fault, k))
    : k ≤ cs.length := by
  rcases scanEscape_cases n cs with heq | ⟨hlen, heq | ⟨c, heq⟩⟩
  . rw [h] at heq
    cases heq
    exact Nat.min_le_right _ _
  . rw [h] at heq
    cases heq
    exact hlen
  . rw [h] at heq
    cases heq

theorem scanEscape_ok {n : Nat} {cs : List Char} {c : Char} (h : scanEscape n cs = .ok c)
    : n ≤ cs.length := by
  rcases scanEscape_cases n cs with heq | ⟨hlen, -⟩
  . rw [h] at heq
    cases heq
  . exact hlen

theorem literal_scanString (quote : Char) (cs body : List Char) (taken : Nat)
    : (scanString quote cs body taken).Literal taken cs.length := by
  fun_induction scanString quote cs body taken with
  | case1 body taken => exact Nat.le_refl _
  | case2 body taken => exact Nat.le_refl _
  | case3 body taken e cs n hn c hc ih =>
    have := scanEscape_ok hc
    refine ih.mono (by omega) ?_
    simp only [List.length_cons, List.length_drop]
    omega
  | case4 body taken e cs n hn fault k hk =>
    have := scanEscape_error hk
    show taken + 2 + k ≤ taken + (cs.length + 1 + 1)
    omega
  | case5 body taken e cs hn ih =>
    refine ih.mono (by omega) ?_
    simp only [List.length_cons]
    omega
  | case6 body taken cs => exact ⟨⟨_, rfl⟩, by omega, by simp only [List.length_cons]; omega⟩
  | case7 body taken cs => exact Nat.le_add_right _ _
  | case8 body taken c cs _ _ _ _ ih =>
    refine ih.mono (by omega) ?_
    simp only [List.length_cons]
    omega

theorem restOfComment?_eq_some {cs : List Char} {n : Nat} (h : restOfComment? cs = some n)
    : ∃ body rest, cs = body ++ '*' :: '/' :: rest ∧ n = body.length + 2 ∧ ¬ ['*', '/'] <:+: body := by
  induction cs using restOfComment?.induct generalizing n with
  | case1 rest =>
    cases h
    exact ⟨[], rest, rfl, rfl, by simp⟩
  | case2 => cases h
  | case3 c cs hne ih =>
    rw [restOfComment?] at h
    . obtain ⟨m, hm, rfl⟩ := Option.map_eq_some_iff.1 h
      obtain ⟨body, rest, rfl, rfl, hbody⟩ := ih hm
      refine ⟨c :: body, rest, rfl, rfl, ?_⟩
      rw [List.infix_cons_iff]
      rintro (hinitial | hinside)
      . obtain ⟨hc, tail, rfl⟩ := List.cons_prefix_cons.1 hinitial
        exact hne _ hc.symm rfl
      . exact hbody hinside
    . exact hne

theorem restOfComment?_append {body rest : List Char} (hbody : ¬ ['*', '/'] <:+: body)
    : restOfComment? (body ++ '*' :: '/' :: rest) = some (body.length + 2) := by
  induction body with
  | nil => rfl
  | cons c body ih =>
    rw [List.infix_cons_iff, not_or] at hbody
    rw [List.cons_append, restOfComment?, ih hbody.2]
    . rfl
    . rintro tail rfl htail
      cases body with
      | nil => cases htail
      | cons d body =>
        cases htail
        exact hbody.1 (by simp)

theorem restOfLine_spec (cs : List Char)
    : ∃ body rest, cs = body ++ rest ∧ restOfLine cs = body.length ∧ '\n' ∉ body ∧
      ∀ c ∈ rest.head?, c = '\n' := by
  refine ⟨cs.takeWhile (· ≠ '\n'), cs.dropWhile (· ≠ '\n'), List.takeWhile_append_dropWhile.symm, rfl,
    fun h => ?_, fun c hc => ?_⟩
  . simpa using List.mem_takeWhile_imp h
  . simpa using Text.startsNo_dropWhile _ _ c hc

theorem restOfLine_append {body rest : List Char} (hbody : '\n' ∉ body) (hrest : ∀ c ∈ rest.head?, c = '\n')
    : restOfLine (body ++ rest) = body.length := by
  unfold restOfLine
  rw [Text.takeWhile_append_of_all]
  . intro c hc
    simpa using fun h : c = '\n' => hbody (h ▸ hc)
  . intro c hc
    simpa using hrest c hc

/-- What the text of a token with its kind is like: only a string can take several lines. -/
structure IsWord (kind : TokenKind) (text : List Char) : Prop where
  ne_end : kind ≠ .endOfInput
  one_line : '\n' ∈ text → ∃ s, kind = .string s

/-- What a scan may find first in the text `c :: cs`. -/
def Piece.Sound (c : Char) (cs : List Char) : Piece → Prop
  | .gap more => more ≤ cs.length ∧ Skip (c :: cs.take more) (cs.drop more)
  | .token kind more => more ≤ cs.length ∧ IsWord kind (c :: cs.take more)
  | .fault _ more => more ≤ cs.length

theorem Piece.Literal.sound {piece : Piece} {c : Char} {cs : List Char} (h : piece.Literal 0 cs.length)
    : piece.Sound c cs := by
  cases piece with
  | gap more => exact h.elim
  | token kind more =>
    obtain ⟨⟨s, rfl⟩, hlt, hle⟩ := h
    exact ⟨by omega, by simp, fun _ => ⟨s, rfl⟩⟩
  | fault fault more =>
    have : more ≤ 0 + cs.length := h
    show more ≤ cs.length
    omega

theorem sound_scanName (c : Char) (cs : List Char) (hc : c ≠ '\n') : (scanName c cs).Sound c cs := by
  have hinitial := List.takeWhile_prefix isNamePart (l := cs)
  have htext : '\n' ∉ c :: cs.take (cs.takeWhile isNamePart).length := by
    rw [← List.prefix_iff_eq_take.1 hinitial]
    rintro (_ | ⟨_, h⟩)
    . exact hc rfl
    . exact absurd (List.mem_takeWhile_imp h) (by decide)
  unfold scanName
  dsimp only
  split
  . exact ⟨hinitial.length_le, by simp, fun h => absurd h htext⟩
  . exact ⟨hinitial.length_le, by simp, fun h => absurd h htext⟩

theorem sound_scanDecimal (c : Char) (cs : List Char) : (scanNumber.scanDecimal (c :: cs)).Sound c cs := by
  unfold scanNumber.scanDecimal
  split
  . next d n hscan =>
    obtain ⟨whole, point, fraction, exponent, rest, hcs, hdecimal, rfl, -⟩ := Decimal.scan_spec hscan
    have hpositive := hdecimal.length_pos
    have htext : c :: cs = (whole ++ point ++ fraction ++ exponent) ++ rest := by simp [hcs]
    have htake : c :: cs.take (whole.length + point.length + fraction.length + exponent.length - 1) =
        whole ++ point ++ fraction ++ exponent := by
      rw [← List.take_succ_cons, htext, List.take_left']
      simp only [List.length_append]
      omega
    have hlength := congrArg List.length htext
    simp only [List.length_append, List.length_cons] at hlength
    split
    . show _ ≤ _
      omega
    . refine ⟨by omega, by simp, fun h => absurd h ?_⟩
      rw [htake]
      exact hdecimal.one_line
  . exact Nat.zero_le _

theorem sound_scanNumber (c : Char) (cs : List Char) : (scanNumber (c :: cs)).Sound c cs := by
  unfold scanNumber
  split
  . next x rest heq =>
    cases heq
    have hinitial := List.takeWhile_prefix Text.isHexDigit (l := rest)
    split
    . next hx =>
      have htake : x :: rest.take (rest.takeWhile Text.isHexDigit).length = x :: rest.takeWhile Text.isHexDigit := by
        rw [← List.prefix_iff_eq_take.1 hinitial]
      dsimp only
      split
      . refine ⟨?_, by simp, fun h => absurd h ?_⟩
        . have := hinitial.length_le
          simp only [List.length_cons]
          omega
        . rw [Nat.add_comm 1, List.take_succ_cons, htake]
          rintro (_ | ⟨_, _ | ⟨_, h⟩⟩)
          . simp at hx
          . exact absurd (List.mem_takeWhile_imp h) (by decide)
      . simp [Piece.Sound]
    . exact sound_scanDecimal _ _
  . exact sound_scanDecimal _ _

theorem scanSymbol_spec {c : Char} {cs : List Char} {s : Symbol} {more : Nat}
    (h : scanSymbol (c :: cs) = some (s, more))
    : more ≤ cs.length ∧ '\n' ∉ c :: cs.take more := by
  unfold scanSymbol at h
  split at h
  case h_17 heq =>
    cases heq
    obtain ⟨single, hsingle, ⟨⟩⟩ := Option.map_eq_some_iff.1 h
    refine ⟨Nat.zero_le _, ?_⟩
    rintro (_ | ⟨_, ⟨⟩⟩)
    cases hsingle
  case h_18 heq => cases heq
  all_goals
    rename_i heq
    cases heq
    cases h
    simp

/-- Every piece lies within the text, and what it says of its characters holds. -/
theorem sound_scanPiece (c : Char) (cs : List Char) : (scanPiece c cs).Sound c cs := by
  unfold scanPiece
  split
  . next hblank => exact ⟨Nat.zero_le _, .blank hblank⟩
  next hblank =>
  have hnewline : c ≠ '\n' := by
    rintro rfl
    exact hblank (by decide)
  split
  . next hslash =>
    obtain ⟨rfl, hhead⟩ := hslash
    obtain ⟨body, rest, rfl, hlength, hbody, hrest⟩ := restOfLine_spec cs
    rw [hlength]
    refine ⟨by simp, ?_⟩
    rw [List.take_left, List.drop_left]
    cases body with
    | nil => exact absurd (hrest '/' hhead) (by decide)
    | cons d body =>
      cases hhead
      exact .line (fun h => hbody (List.mem_cons_of_mem _ h)) hrest
  split
  . next hstar =>
    obtain ⟨rfl, hhead⟩ := hstar
    obtain ⟨cs, rfl⟩ := List.head?_eq_some_iff.1 hhead
    split
    . next n hn =>
      obtain ⟨body, rest, rfl, rfl, hbody⟩ : ∃ body rest, cs = body ++ '*' :: '/' :: rest ∧
          n = body.length + 2 ∧ ¬ ['*', '/'] <:+: body := restOfComment?_eq_some hn
      have hsplit : '*' :: (body ++ '*' :: '/' :: rest) = ('*' :: (body ++ ['*', '/'])) ++ rest := by simp
      have hlength : 1 + (body.length + 2) = ('*' :: (body ++ ['*', '/'])).length := by
        simp only [List.length_cons, List.length_append, List.length_nil]
        omega
      rw [hsplit, hlength]
      refine ⟨by simp, ?_⟩
      rw [List.take_left, List.drop_left]
      exact .block hbody
    . exact Nat.le_refl _
  split
  . exact (literal_scanString c cs [] 0).sound
  split
  . exact sound_scanNumber c cs
  split
  . exact sound_scanName c cs hnewline
  split
  . next s more hsymbol =>
    obtain ⟨hle, htext⟩ := scanSymbol_spec hsymbol
    exact ⟨hle, by simp, fun h => absurd h htext⟩
  . exact Nat.zero_le _

/-- What separates tokens is skipped. -/
theorem scanPiece_of_skip {c : Char} {piece rest : List Char} (h : Skip (c :: piece) rest)
    : scanPiece c (piece ++ rest) = .gap piece.length := by
  unfold scanPiece
  cases h with
  | blank hblank => simp [hblank]
  | @line body _ hbody hrest =>
    have : restOfLine ('/' :: body ++ rest) = ('/' :: body).length :=
      restOfLine_append (by simpa using hbody) hrest
    rw [if_neg (by decide), if_pos ⟨rfl, rfl⟩, this]
  | @block body _ hbody =>
    rw [if_neg (by decide), if_neg (by simp), if_pos ⟨rfl, rfl⟩]
    simp [restOfComment?_append hbody]
    omega

end ScriptHost.Token
