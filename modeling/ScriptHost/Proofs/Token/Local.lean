import ScriptHost.Proofs.Token.Piece

/-!
This module contains that a token depends on its own characters and on the next one only: it is read the
same in front of any text that starts the same, or with a space or a closing parenthesis, and at the end.
-/

namespace ScriptHost.Token

open Text (StartsNo)

/-- The text ends, or goes on with a character that is no part of the token before it. -/
def Parts (cs : List Char) : Prop :=
  ∀ c ∈ cs.head?, c = ')' ∨ c = ' '

/-- What may stand behind a token in place of the text `rest`. -/
def Follows (rest rest' : List Char) : Prop :=
  rest'.head? = rest.head? ∨ Parts rest'

namespace Parts

variable {cs : List Char} (h : Parts cs)
include h

theorem startsNo {p : Char → Bool} (hparen : p ')' = false) (hspace : p ' ' = false) : StartsNo p cs := by
  intro c hc
  rcases h c hc with rfl | rfl
  . exact hparen
  . exact hspace

theorem head?_ne {d : Char} (hparen : d ≠ ')') (hspace : d ≠ ' ') : cs.head? ≠ some d := by
  intro hd
  rcases h d hd with rfl | rfl
  . exact hparen rfl
  . exact hspace rfl

theorem scanSymbol_eq (c : Char) : scanSymbol (c :: cs) = (scanSymbol.scanSingle c).map fun s => (s, 0) := by
  unfold scanSymbol
  split
  case h_17 heq =>
    cases heq
    rfl
  all_goals
    rename_i heq
    cases heq <;> exact absurd rfl (h.head?_ne (by decide) (by decide))

end Parts

theorem scanSingle_of_scanSymbol {c : Char} {cs : List Char} {s : Symbol} (h : scanSymbol (c :: cs) = some (s, 0))
    : scanSymbol.scanSingle c = some s := by
  unfold scanSymbol at h
  split at h
  case h_17 heq =>
    cases heq
    obtain ⟨single, hsingle, ⟨⟩⟩ := Option.map_eq_some_iff.1 h
    exact hsingle
  all_goals
    rename_i heq
    cases heq <;> cases h

/-- A symbol of one character depends on the next character, with which it could be a longer symbol. -/
theorem scanSymbol_single {c : Char} {rest rest' : List Char} {s : Symbol}
    (h : scanSymbol (c :: rest) = some (s, 0)) (hrest : Follows rest rest')
    : scanSymbol (c :: rest') = some (s, 0) := by
  rcases hrest with hsame | hparts
  . cases rest with
    | nil =>
      rw [List.head?_nil, List.head?_eq_none_iff] at hsame
      exact hsame ▸ h
    | cons d rest =>
      obtain ⟨tail, rfl⟩ := List.head?_eq_some_iff.1 hsame
      unfold scanSymbol at h ⊢
      grind
  . simp [hparts.scanSymbol_eq, scanSingle_of_scanSymbol h]

theorem scanSymbol_append {c : Char} {word rest rest' : List Char} {s : Symbol}
    (h : scanSymbol (c :: (word ++ rest)) = some (s, word.length)) (hrest : Follows rest rest')
    : scanSymbol (c :: (word ++ rest')) = some (s, word.length) := by
  have hequal : (∀ tail, rest = '=' :: tail → False) → ∀ tail, rest' = '=' :: tail → False := by
    rintro hne tail rfl
    rcases hrest with hsame | hparts
    . obtain ⟨tail', htail⟩ := List.head?_eq_some_iff.1 hsame.symm
      exact hne tail' htail
    . exact hparts.head?_ne (by decide) (by decide) rfl
  match word with
  | [] => exact scanSymbol_single h hrest
  | [d] =>
    unfold scanSymbol at h
    split at h
    -- two of the symbols with two characters begin longer ones
    case h_10 hne heq =>
      cases heq
      cases h
      rw [List.singleton_append, scanSymbol]
      . rfl
      . exact hequal hne
    case h_12 hne heq =>
      cases heq
      cases h
      rw [List.singleton_append, scanSymbol]
      . rfl
      . exact hequal hne
    case h_17 =>
      obtain ⟨single, -, hsingle⟩ := Option.map_eq_some_iff.1 h
      cases hsingle
    all_goals
      rename_i heq
      cases heq <;> cases h <;> rfl
  | d :: e :: word =>
    unfold scanSymbol at h
    split at h
    case h_17 =>
      obtain ⟨single, -, hsingle⟩ := Option.map_eq_some_iff.1 h
      cases hsingle
    all_goals
      rename_i heq
      cases heq <;> cases word <;> cases h <;> rfl

theorem startsNo_mono {p p' : Char → Bool} {cs : List Char} (h : StartsNo p cs)
    (hp : ∀ c, p' c = true → p c = true)
    : StartsNo p' cs := by
  intro c hc
  by_contra hc'
  simpa [h c hc] using hp c (by simpa using hc')

namespace Follows

variable {rest rest' : List Char} (h : Follows rest rest')
include h

theorem startsNo {p : Char → Bool} (hparen : p ')' = false) (hspace : p ' ' = false) (hrest : StartsNo p rest)
    : StartsNo p rest' := by
  rcases h with hsame | hparts
  . exact fun c hc => hrest c (hsame ▸ hc)
  . exact hparts.startsNo hparen hspace

theorem head?_append (word : List Char) : Follows (word ++ rest) (word ++ rest') := by
  cases word with
  | nil => exact h
  | cons c word => exact .inl rfl

theorem takeWhile_append {p : Char → Bool} {word : List Char} (hparen : p ')' = false) (hspace : p ' ' = false)
    (hlength : ((word ++ rest).takeWhile p).length = word.length)
    : (word ++ rest).takeWhile p = word ∧ (word ++ rest').takeWhile p = word := by
  have htake : (word ++ rest).takeWhile p = word := by
    rw [List.prefix_iff_eq_take.1 (List.takeWhile_prefix p), hlength, List.take_left]
  have hword : ∀ c ∈ word, p c = true := fun c hc => List.mem_takeWhile_imp (htake ▸ hc)
  refine ⟨htake, Text.takeWhile_append_of_all hword (h.startsNo hparen hspace ?_)⟩
  rw [List.takeWhile_append_of_pos hword] at htake
  cases rest with
  | nil => exact nofun
  | cons d rest =>
    rintro c ⟨⟩
    by_contra hd
    simp [hd] at htake

end Follows

theorem scanEscape_take {n : Nat} {cs cs' : List Char} {c : Char} (h : scanEscape n cs = .ok c)
    (hcs : cs'.take n = cs.take n)
    : scanEscape n cs' = .ok c := by
  unfold scanEscape at h ⊢
  dsimp only at h ⊢
  rw [hcs]
  by_cases hlength : ((cs.take n).takeWhile Text.isHexDigit).length < n
  . rw [if_pos hlength] at h
    cases h
  . rw [if_neg hlength] at h ⊢
    by_cases hvalid : (Text.ofHexDigits ((cs.take n).takeWhile Text.isHexDigit)).isValidChar
    . rw [dif_pos hvalid] at h ⊢
      exact h
    . rw [dif_neg hvalid] at h
      cases h

theorem take_succ_eq {c : Char} {cs cs' : List Char} {n : Nat} (h : cs'.take (n + 1) = (c :: cs).take (n + 1))
    : ∃ tail, cs' = c :: tail ∧ tail.take n = cs.take n := by
  cases cs' with
  | nil => cases h
  | cons d tail =>
    simp only [List.take_succ_cons, List.cons.injEq] at h
    exact ⟨tail, by rw [h.1], h.2⟩

theorem ne_backslash {c : Char} {cs : List Char} (hempty : c = '\\' → cs = [] → False)
    (hescape : ∀ e cs', c = '\\' → cs = e :: cs' → False)
    : c ≠ '\\' := by
  intro hc
  cases cs with
  | nil => exact hempty hc rfl
  | cons e cs => exact hescape e cs hc rfl

theorem scanString_of_ne {quote c : Char} {cs body : List Char} {taken : Nat} (hc : c ≠ '\\')
    : scanString quote (c :: cs) body taken =
      if c = quote then .token (.string (String.ofList body.reverse)) (taken + 1)
      else if c = '\n' then .fault .malformedToken taken
      else scanString quote cs (c :: body) (taken + 1) := by
  rw [scanString]
  . exact fun h => absurd h hc
  . exact fun _ _ h => absurd h hc

/-- A string is read from its own characters only. -/
theorem scanString_take {quote : Char} {cs cs' body : List Char} {taken n : Nat} {kind : TokenKind}
    (h : scanString quote cs body taken = .token kind (taken + n)) (hcs : cs'.take n = cs.take n)
    : scanString quote cs' body taken = .token kind (taken + n) := by
  fun_induction scanString quote cs body taken generalizing cs' n with
  | case1 body taken => cases h
  | case2 body taken => cases h
  | case3 body taken e cs k hk c hc ih =>
    have hliteral := literal_scanString quote (cs.drop k) (c :: body) (taken + 2 + k)
    rw [h] at hliteral
    obtain ⟨m, rfl⟩ := Nat.exists_eq_add_of_le (show 2 + k ≤ n by have := hliteral.2.1; omega)
    rw [show 2 + k + m = k + m + 1 + 1 by omega] at hcs
    obtain ⟨tail, rfl, htail⟩ := take_succ_eq hcs
    obtain ⟨cs', rfl, hrest⟩ := take_succ_eq htail
    rw [show taken + (2 + k + m) = taken + 2 + k + m by omega] at h ⊢
    have hescape : cs'.take k = cs.take k := by simpa [List.take_take] using congrArg (List.take k) hrest
    have hk : (if e = 'x' then some 2 else if e = 'u' then some 4 else none) = some k := hk
    rw [scanString]
    simp only [hk, scanEscape_take hc hescape]
    refine ih h ?_
    rw [List.take_drop, List.take_drop, hrest]
  | case4 body taken e cs n hn fault k hk => cases h
  | case5 body taken e cs hn ih =>
    have hliteral := literal_scanString quote cs ((plainEscape e).toList ++ body) (taken + 2)
    rw [h] at hliteral
    obtain ⟨m, rfl⟩ := Nat.exists_eq_add_of_le (show 2 ≤ n by have := hliteral.2.1; omega)
    rw [Nat.add_comm 2] at hcs
    obtain ⟨tail, rfl, htail⟩ := take_succ_eq hcs
    obtain ⟨cs', rfl, hrest⟩ := take_succ_eq htail
    rw [show taken + (2 + m) = taken + 2 + m by omega] at h ⊢
    have hn : (if e = 'x' then some 2 else if e = 'u' then some 4 else none) = none := hn
    rw [scanString]
    simp only [hn]
    exact ih h hrest
  | case6 body taken cs hempty hescape =>
    obtain ⟨rfl, hn⟩ := Piece.token.inj h
    obtain rfl : n = 1 := by omega
    obtain ⟨cs', rfl, -⟩ := take_succ_eq hcs
    rw [scanString_of_ne (ne_backslash hempty hescape), if_pos rfl]
  | case7 body taken cs => cases h
  | case8 body taken c cs hempty hescape hquote hline ih =>
    have hliteral := literal_scanString quote cs (c :: body) (taken + 1)
    rw [h] at hliteral
    obtain ⟨m, rfl⟩ := Nat.exists_eq_add_of_le (show 1 ≤ n by have := hliteral.2.1; omega)
    rw [Nat.add_comm 1] at hcs
    obtain ⟨cs', rfl, hrest⟩ := take_succ_eq hcs
    rw [show taken + (1 + m) = taken + 1 + m by omega] at h ⊢
    rw [scanString_of_ne (ne_backslash hempty hescape), if_neg hquote, if_neg hline]
    exact ih h hrest

theorem scanName_append {c : Char} {word rest rest' : List Char} {kind : TokenKind}
    (h : scanName c (word ++ rest) = .token kind word.length) (hrest : Follows rest rest')
    : scanName c (word ++ rest') = .token kind word.length := by
  have hlength : ((word ++ rest).takeWhile isNamePart).length = word.length := by
    unfold scanName at h
    dsimp only at h
    split at h <;> exact (Piece.token.inj h).2
  obtain ⟨htake, htake'⟩ := hrest.takeWhile_append (by decide) (by decide) hlength
  unfold scanName at h ⊢
  rw [htake] at h
  rw [htake']
  exact h

theorem scanDecimal_append {text rest rest' : List Char} {kind : TokenKind} {more : Nat}
    (h : scanNumber.scanDecimal (text ++ rest) = .token kind more) (hlength : text.length = more + 1)
    (hrest : Follows rest rest')
    : scanNumber.scanDecimal (text ++ rest') = .token kind more := by
  unfold scanNumber.scanDecimal at h
  split at h
  . next d n hscan =>
    split at h
    . cases h
    . next hname =>
      obtain ⟨rfl, hmore⟩ := Piece.token.inj h
      obtain ⟨whole, point, fraction, exponent, behind, htext, hdecimal, rfl, hdigit, hdot⟩ :=
        Decimal.scan_spec hscan
      have hpositive := hdecimal.length_pos
      obtain ⟨rfl, rfl⟩ : text = whole ++ (point ++ (fraction ++ exponent)) ∧ rest = behind := by
        refine List.append_inj (by simpa using htext) ?_
        simp only [List.length_append]
        omega
      have hdrop : ∀ behind, (whole ++ (point ++ (fraction ++ exponent)) ++ behind).drop
          (whole.length + point.length + fraction.length + exponent.length) = behind := by
        intro behind
        rw [List.drop_left']
        simp only [List.length_append]
        omega
      rw [hdrop] at hname
      have hname : StartsNo isNameStart rest := by
        intro c hc
        obtain ⟨tail, rfl⟩ := List.head?_eq_some_iff.1 hc
        simpa using hname
      have hname' : ¬ rest'.head?.any isNameStart := by
        rw [Option.any_eq_true]
        rintro ⟨c, hc, hstart⟩
        rw [hrest.startsNo (by decide) (by decide) hname c hc] at hstart
        cases hstart
      have hmark : StartsNo (fun c => c = 'e' || c = 'E') rest := by
        refine startsNo_mono hname fun c hc => ?_
        have : c = 'e' ∨ c = 'E' := by simpa using hc
        rcases this with rfl | rfl <;> decide
      have hassoc : ∀ behind, whole ++ (point ++ (fraction ++ exponent)) ++ behind =
          whole ++ (point ++ (fraction ++ (exponent ++ behind))) := by simp
      have hscan' : Decimal.scan (whole ++ (point ++ (fraction ++ exponent)) ++ rest') =
          some (d, whole.length + point.length + fraction.length + exponent.length) := by
        rw [hassoc] at hscan ⊢
        rw [Decimal.scan_append hdecimal hdigit hdot hmark] at hscan
        rw [← hscan]
        exact Decimal.scan_append hdecimal (hrest.startsNo (by decide) (by decide) hdigit)
          (fun hpoint hexponent => hrest.startsNo (by decide) (by decide) (hdot hpoint hexponent))
          (hrest.startsNo (by decide) (by decide) hmark)
      unfold scanNumber.scanDecimal
      rw [hscan']
      dsimp only
      rw [hdrop, if_neg hname', hmore]
  . cases h

theorem scanNumber_eq (c : Char) (cs : List Char)
    : scanNumber (c :: cs) =
      if c = '0' ∧ (cs.head? = some 'x' ∨ cs.head? = some 'X') then
        (Double.ofHexDigits? (cs.tail.takeWhile Text.isHexDigit)).elim (.fault .malformedToken 1) fun value =>
          .token (.number value) (1 + (cs.tail.takeWhile Text.isHexDigit).length)
      else scanNumber.scanDecimal (c :: cs) := by
  unfold scanNumber
  split
  . next x rest heq =>
    cases heq
    simp only [List.head?_cons, Option.some.injEq, true_and, List.tail_cons]
    cases Double.ofHexDigits? (rest.takeWhile Text.isHexDigit) <;> rfl
  . next hne =>
    rw [if_neg]
    rintro ⟨rfl, hhead⟩
    cases cs with
    | nil => simp at hhead
    | cons x rest => exact hne x rest rfl

theorem scanNumber_append {c : Char} {word rest rest' : List Char} {kind : TokenKind}
    (h : scanNumber (c :: (word ++ rest)) = .token kind word.length) (hrest : Follows rest rest')
    : scanNumber (c :: (word ++ rest')) = .token kind word.length := by
  rw [scanNumber_eq] at h ⊢
  split at h
  . next hhex =>
    cases hvalue : Double.ofHexDigits? ((word ++ rest).tail.takeWhile Text.isHexDigit) with
    | none =>
      rw [hvalue] at h
      cases h
    | some value =>
      rw [hvalue] at h
      obtain ⟨rfl, hlength⟩ := Piece.token.inj h
      cases word with
      | nil =>
        rw [List.length_nil] at hlength
        omega
      | cons x word =>
        have hhex : c = '0' ∧
            ((x :: word ++ rest').head? = some 'x' ∨ (x :: word ++ rest').head? = some 'X') := hhex
        rw [if_pos hhex]
        simp only [List.cons_append, List.tail_cons, List.length_cons] at hvalue hlength ⊢
        have hword : ((word ++ rest).takeWhile Text.isHexDigit).length = word.length := by omega
        obtain ⟨htake, htake'⟩ := hrest.takeWhile_append (by decide) (by decide) hword
        rw [htake] at hvalue
        rw [htake', hvalue, Option.elim, Nat.add_comm]
  . next hhex =>
    have hhex' : ¬ (c = '0' ∧ ((word ++ rest').head? = some 'x' ∨ (word ++ rest').head? = some 'X')) := by
      rintro ⟨hc, hhead⟩
      rcases hrest.head?_append word with hsame | hparts
      . exact hhex ⟨hc, hsame ▸ hhead⟩
      . exact hhead.elim (hparts.head?_ne (by decide) (by decide)) (hparts.head?_ne (by decide) (by decide))
    rw [if_neg hhex', ← List.cons_append]
    exact scanDecimal_append h rfl hrest

theorem Parts.startsNumber_eq {cs : List Char} (h : Parts cs) (c : Char) : startsNumber c cs = c.isDigit := by
  have hany : cs.head?.any Char.isDigit = false := by
    rw [Option.any_eq_false]
    exact fun d hd => by simp [h.startsNo (p := Char.isDigit) (by decide) (by decide) d hd]
  simp [startsNumber, hany]

theorem Parts.scanNumber_point {cs : List Char} (h : Parts cs)
    : scanNumber ('.' :: cs) = .fault .malformedToken 0 := by
  have htake : ([] ++ cs).takeWhile Char.isDigit = [] :=
    Text.takeWhile_append_of_all (by simp) (h.startsNo (by decide) (by decide))
  rw [List.nil_append] at htake
  simp [scanNumber_eq, scanNumber.scanDecimal, Decimal.scan_eq, Decimal.splitFraction, htake]

theorem startsNumber_of_append {c : Char} {word rest rest' : List Char} (hrest : Follows rest rest')
    (h : startsNumber c (word ++ rest') = true)
    : startsNumber c (word ++ rest) = true := by
  rcases hrest.head?_append word with hsame | hparts
  . simpa [startsNumber, hsame] using h
  . rw [hparts.startsNumber_eq] at h
    simp [startsNumber, h]

/-- A point is no number if its token ends there. -/
theorem startsNumber_append {c : Char} {word rest rest' : List Char} {kind : TokenKind}
    (h : scanNumber (c :: (word ++ rest)) = .token kind word.length) (hrest : Follows rest rest')
    (hstart : startsNumber c (word ++ rest) = true)
    : startsNumber c (word ++ rest') = true := by
  have hnumber := scanNumber_append h hrest
  rcases hrest.head?_append word with hsame | hparts
  . simpa [startsNumber, hsame] using hstart
  . rw [hparts.startsNumber_eq]
    by_contra hdigit
    have hc : c = '.' := by simp_all [startsNumber]
    subst hc
    rw [hparts.scanNumber_point] at hnumber
    cases hnumber

/-- A token is read the same whatever follows, as long as that starts the same or is no part of it. -/
theorem scanPiece_append {c : Char} {word rest rest' : List Char} {kind : TokenKind}
    (h : scanPiece c (word ++ rest) = .token kind word.length) (hrest : Follows rest rest')
    : scanPiece c (word ++ rest') = .token kind word.length := by
  have hhead := hrest.head?_append word
  have hne : ∀ {d}, d ≠ ')' → d ≠ ' ' → (word ++ rest).head? ≠ some d → (word ++ rest').head? ≠ some d := by
    intro d hparen hspace hne heq
    rcases hhead with hsame | hparts
    . exact hne (hsame ▸ heq)
    . exact hparts.head?_ne hparen hspace heq
  unfold scanPiece at h ⊢
  split at h
  . cases h
  next hblank =>
  rw [if_neg hblank]
  split at h
  . cases h
  next hline =>
  rw [if_neg fun hslash => hne (by decide) (by decide) (fun heq => hline ⟨hslash.1, heq⟩) hslash.2]
  split at h
  . split at h <;> cases h
  next hblock =>
  rw [if_neg fun hstar => hne (by decide) (by decide) (fun heq => hblock ⟨hstar.1, heq⟩) hstar.2]
  split at h
  . next hquote =>
    rw [if_pos hquote]
    rw [← Nat.zero_add word.length] at h ⊢
    exact scanString_take h (by simp)
  next hquote =>
  rw [if_neg hquote]
  split at h
  . next hstart =>
    rw [if_pos (startsNumber_append h hrest hstart)]
    exact scanNumber_append h hrest
  next hstart =>
  rw [if_neg fun hstart' => hstart (startsNumber_of_append hrest hstart')]
  split at h
  . next hname =>
    rw [if_pos hname]
    exact scanName_append h hrest
  next hname =>
  rw [if_neg hname]
  split at h
  . next s more hsymbol =>
    obtain ⟨rfl, rfl⟩ := Piece.token.inj h
    rw [scanSymbol_append hsymbol hrest]
  . cases h

end ScriptHost.Token
