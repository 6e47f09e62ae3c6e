import ScriptHost.Proofs.Token.Slices

/-!
This module contains the string literals: how the characters of a text can be written between two quotes,
what is read from that, and that no other script has a string.
-/

namespace ScriptHost.Token

/-- The digits of a number in base sixteen, in either case. -/
structure IsHex (digits : List Char) (n : Nat) : Prop where
  all : ∀ d ∈ digits, Text.isHexDigit d = true
  value : Text.ofHexDigits digits = n

/-- The ways to write a character between two quotes. -/
inductive CharSpelling (quote : Char) : Char → List Char → Prop
  | self {c : Char} (quote_ne : c ≠ quote) (backslash_ne : c ≠ '\\') (newline_ne : c ≠ '\n')
    : CharSpelling quote c [c]
  | newline : CharSpelling quote '\n' ['\\', 'n']
  | tab : CharSpelling quote '\t' ['\\', 't']
  | return : CharSpelling quote '\r' ['\\', 'r']
  | null : CharSpelling quote '\x00' ['\\', '0']
  | byte {c : Char} {digits : List Char} (length_eq : digits.length = 2) (hex : IsHex digits c.toNat)
    : CharSpelling quote c ('\\' :: 'x' :: digits)
  /-- A character is never one of a pair of surrogates. -/
  | unit {c : Char} {digits : List Char} (length_eq : digits.length = 4) (hex : IsHex digits c.toNat)
    : CharSpelling quote c ('\\' :: 'u' :: digits)
  | escaped {c : Char} (plain : c ∉ ['n', 't', 'r', '0', 'x', 'u', '\n']) : CharSpelling quote c ['\\', c]

/-- The ways to write a text between two quotes. Anywhere in it a backslash may continue it on the next line. -/
inductive TextSpelling (quote : Char) : List Char → List Char → Prop
  | nil : TextSpelling quote [] []
  | cons {c : Char} {piece text body : List Char} (first : CharSpelling quote c piece)
      (others : TextSpelling quote text body)
    : TextSpelling quote (c :: text) (piece ++ body)
  | continued {text body : List Char} (others : TextSpelling quote text body)
    : TextSpelling quote text ('\\' :: '\n' :: body)

/-- A text between two quotes of one kind. -/
inductive Quoted (s : String) : List Char → Prop
  | intro {quote : Char} {body : List Char} (is_quote : quote = '"' ∨ quote = '\'')
      (spelling : TextSpelling quote s.toList body)
    : Quoted s (quote :: (body ++ [quote]))

variable {quote c : Char} {n : Nat} {cs acc : List Char} {taken more : Nat} {s : String}

theorem scanEscape_eq_ok_iff
    : scanEscape n cs = .ok c ↔
      ∃ digits rest, cs = digits ++ rest ∧ digits.length = n ∧ IsHex digits c.toNat := by
  have hvalue : ∀ code (h : code.isValidChar), Char.ofNatAux code h = c ↔ code = c.toNat := by
    intro code h
    rw [← Char.toNat_inj]
    rfl
  constructor
  . intro h
    have hn := scanEscape_ok h
    unfold scanEscape at h
    dsimp only at h
    by_cases hlength : ((cs.take n).takeWhile Text.isHexDigit).length < n
    . rw [if_pos hlength] at h
      cases h
    . have htake : (cs.take n).takeWhile Text.isHexDigit = cs.take n := by
        refine (List.takeWhile_prefix _).eq_of_length_le ?_
        rw [List.length_take]
        omega
      rw [if_neg hlength, htake] at h
      by_cases hvalid : (Text.ofHexDigits (cs.take n)).isValidChar
      . rw [dif_pos hvalid] at h
        refine ⟨cs.take n, cs.drop n, (List.take_append_drop n cs).symm, List.length_take_of_le hn, ?_, ?_⟩
        . exact fun d hd => List.mem_takeWhile_imp (htake ▸ hd)
        . exact (hvalue _ hvalid).1 (Except.ok.inj h)
      . rw [dif_neg hvalid] at h
        cases h
  . rintro ⟨digits, rest, rfl, rfl, hall, hcode⟩
    have htake : (((digits ++ rest).take digits.length).takeWhile Text.isHexDigit) = digits := by
      rw [List.take_left, List.takeWhile_eq_self_iff.2 hall]
    unfold scanEscape
    dsimp only
    rw [htake, if_neg (Nat.lt_irrefl _), hcode]
    have hvalid : c.toNat.isValidChar := c.valid
    rw [dif_pos hvalid, (hvalue _ hvalid).2 rfl]

theorem scanString_plain {e : Char} (hx : e ≠ 'x') (hu : e ≠ 'u')
    : scanString quote ('\\' :: e :: cs) acc taken =
      scanString quote cs ((plainEscape e).toList ++ acc) (taken + 2) := by
  rw [scanString]
  simp [hx, hu]

theorem plainEscape_of_not_mem (h : c ∉ ['n', 't', 'r', '0', 'x', 'u', '\n']) : plainEscape c = some c := by
  simp only [List.mem_cons, List.not_mem_nil, or_false, not_or] at h
  unfold plainEscape
  split <;> simp_all

/-- A written character is read as this character. -/
theorem scanString_spelled {piece : List Char} (h : CharSpelling quote c piece)
    : scanString quote (piece ++ cs) acc taken = scanString quote cs (c :: acc) (taken + piece.length) := by
  cases h with
  | self hquote hbackslash hnewline =>
    rw [List.singleton_append, scanString_of_ne hbackslash, if_neg hquote, if_neg hnewline]
    rfl
  | newline => exact scanString_plain (by decide) (by decide)
  | tab => exact scanString_plain (by decide) (by decide)
  | «return» => exact scanString_plain (by decide) (by decide)
  | null => exact scanString_plain (by decide) (by decide)
  | @byte _ digits hlength hhex =>
    have hescape : scanEscape 2 (digits ++ cs) = .ok c := scanEscape_eq_ok_iff.2 ⟨digits, cs, rfl, hlength, hhex⟩
    rw [List.cons_append, List.cons_append, scanString]
    simp only [if_pos, hescape]
    rw [List.drop_left' hlength, List.length_cons, List.length_cons, hlength]
  | @unit _ digits hlength hhex =>
    have hescape : scanEscape 4 (digits ++ cs) = .ok c := scanEscape_eq_ok_iff.2 ⟨digits, cs, rfl, hlength, hhex⟩
    rw [List.cons_append, List.cons_append, scanString]
    simp only [show ¬ 'u' = 'x' by decide, if_neg, if_pos, not_false_iff, hescape]
    rw [List.drop_left' hlength, List.length_cons, List.length_cons, hlength]
  | escaped hplain =>
    have hx : c ≠ 'x' := by
      rintro rfl
      exact hplain (by decide)
    have hu : c ≠ 'u' := by
      rintro rfl
      exact hplain (by decide)
    rw [List.cons_append, List.singleton_append, scanString_plain hx hu, plainEscape_of_not_mem hplain]
    rfl

/-- A written text is read as this text, up to the closing quote. -/
theorem TextSpelling.scanString {text body : List Char} (h : TextSpelling quote text body) (hquote : quote ≠ '\\')
    : Token.scanString quote (body ++ quote :: cs) acc taken =
      .token (.string (String.ofList (acc.reverse ++ text))) (taken + body.length + 1) := by
  induction h generalizing acc taken with
  | nil => rw [List.nil_append, scanString_of_ne hquote, if_pos rfl, List.append_nil]; rfl
  | @cons c piece text body hfirst _ ih =>
    rw [List.append_assoc, scanString_spelled hfirst, ih, List.length_append, Nat.add_assoc taken]
    simp
  | @continued text body _ ih =>
    rw [List.cons_append, List.cons_append, scanString_plain (by decide) (by decide)]
    refine (ih ..).trans ?_
    rw [List.length_cons, List.length_cons, Nat.add_right_comm taken 2, Nat.add_assoc taken]
    rfl

/-- The escape of one character stands for a character, or continues the text on the next line. -/
theorem plainEscape_cases (quote : Char) {e : Char} (hx : e ≠ 'x') (hu : e ≠ 'u')
    : (∃ c, plainEscape e = some c ∧ CharSpelling quote c ['\\', e]) ∨ e = '\n' ∧ plainEscape e = none := by
  unfold plainEscape
  split
  . exact .inl ⟨_, rfl, .newline⟩
  . exact .inl ⟨_, rfl, .tab⟩
  . exact .inl ⟨_, rfl, .return⟩
  . exact .inl ⟨_, rfl, .null⟩
  . exact .inr ⟨rfl, rfl⟩
  . exact .inl ⟨_, rfl, .escaped (by simp_all)⟩

theorem charSpelling_of_scanEscape (quote : Char) {e : Char}
    (hn : (if e = 'x' then some 2 else if e = 'u' then some 4 else none) = some n)
    (h : scanEscape n cs = .ok c)
    : ∃ digits rest, cs = digits ++ rest ∧ digits.length = n ∧ CharSpelling quote c ('\\' :: e :: digits) := by
  obtain ⟨digits, rest, hcs, hlength, hhex⟩ := scanEscape_eq_ok_iff.1 h
  refine ⟨digits, rest, hcs, hlength, ?_⟩
  split at hn
  . next he =>
    cases hn
    exact he ▸ .byte hlength hhex
  . split at hn
    . next he =>
      cases hn
      exact he ▸ .unit hlength hhex
    . cases hn

/-- What is read as a string is written so. -/
theorem textSpelling_of_scanString {kind : TokenKind} (h : scanString quote cs acc taken = .token kind more)
    : ∃ text body rest, TextSpelling quote text body ∧ cs = body ++ quote :: rest ∧
      more = taken + body.length + 1 ∧ kind = .string (String.ofList (acc.reverse ++ text)) := by
  fun_induction scanString quote cs acc taken with
  | case1 acc taken => cases h
  | case2 acc taken => cases h
  | case3 acc taken e cs n hn c hc ih =>
    obtain ⟨digits, behind, rfl, hlength, hspelling⟩ := charSpelling_of_scanEscape quote hn hc
    obtain ⟨text, body, rest, hbody, hbehind, rfl, rfl⟩ := ih h
    rw [List.drop_left' hlength] at hbehind
    subst hbehind
    refine ⟨c :: text, _, rest, .cons hspelling hbody, by simp, ?_, by simp⟩
    simp only [List.length_append, List.length_cons]
    omega
  | case4 acc taken e cs n hn fault k hk => cases h
  | case5 acc taken e cs hn ih =>
    obtain ⟨text, body, rest, hbody, rfl, rfl, rfl⟩ := ih h
    have hx : e ≠ 'x' := by
      rintro rfl
      cases hn
    have hu : e ≠ 'u' := by
      rintro rfl
      cases hn
    rcases plainEscape_cases quote hx hu with ⟨c, hc, hspelling⟩ | ⟨rfl, hnone⟩
    . refine ⟨c :: text, _, rest, .cons hspelling hbody, by simp, ?_, by simp [hc]⟩
      simp only [List.length_append, List.length_cons, List.length_nil]
      omega
    . refine ⟨text, _, rest, .continued hbody, by simp, ?_, by simp [hnone]⟩
      simp only [List.length_cons]
      omega
  | case6 acc taken cs hempty hescape =>
    obtain ⟨rfl, rfl⟩ := Piece.token.inj h
    exact ⟨[], [], cs, .nil, rfl, rfl, by simp⟩
  | case7 acc taken cs => cases h
  | case8 acc taken c cs hempty hescape hquote hnewline ih =>
    obtain ⟨text, body, rest, hbody, rfl, rfl, rfl⟩ := ih h
    have hbackslash := ne_backslash hempty hescape
    refine ⟨c :: text, _, rest, .cons (.self hquote hbackslash hnewline) hbody, rfl, ?_, by simp⟩
    simp only [List.length_append, List.length_cons, List.length_nil]
    omega

theorem scanPiece_quote (hquote : quote = '"' ∨ quote = '\'')
    : scanPiece quote cs = scanString quote cs [] 0 := by
  have hblank : Text.isBlank quote = false := by
    rcases hquote with rfl | rfl <;> decide
  have hslash : quote ≠ '/' := by
    rcases hquote with rfl | rfl <;> decide
  simp [scanPiece, hblank, hslash, hquote]

theorem scanDecimal_ne_string : scanNumber.scanDecimal cs ≠ .token (.string s) more := by
  intro h
  unfold scanNumber.scanDecimal at h
  split at h
  . split at h
    . cases h
    . cases (Piece.token.inj h).1
  . cases h

theorem scanNumber_ne_string : scanNumber (c :: cs) ≠ .token (.string s) more := by
  rw [scanNumber_eq]
  split
  . cases Double.ofHexDigits? (cs.tail.takeWhile Text.isHexDigit) <;> simp
  . exact scanDecimal_ne_string

theorem scanName_ne_string : scanName c cs ≠ .token (.string s) more := by
  intro h
  unfold scanName at h
  dsimp only at h
  split at h <;> cases (Piece.token.inj h).1

/-- Only what begins with a quote is a string. -/
theorem quote_of_scanPiece (h : scanPiece c cs = .token (.string s) more) : c = '"' ∨ c = '\'' := by
  unfold scanPiece at h
  split at h
  . cases h
  split at h
  . cases h
  split at h
  . split at h <;> cases h
  split at h
  . next hquote => exact hquote
  split at h
  . exact absurd h scanNumber_ne_string
  split at h
  . exact absurd h scanName_ne_string
  split at h
  . cases (Piece.token.inj h).1
  . cases h

theorem spells_string_iff {text : List Char} : Spells text (.string s) ↔ Quoted s text := by
  constructor
  . rintro ⟨quote, word, rfl, h⟩
    have hquote := quote_of_scanPiece h
    rw [scanPiece_quote hquote] at h
    obtain ⟨text, body, rest, hbody, rfl, hlength, hkind⟩ := textSpelling_of_scanString h
    have hrest : rest = [] := by
      rw [← List.length_eq_zero_iff]
      simp only [List.length_append, List.length_cons] at hlength
      omega
    have htext : text = s.toList := by
      rw [TokenKind.string.inj hkind]
      simp
    subst hrest htext
    exact .intro hquote hbody
  . rintro ⟨hquote, hbody⟩
    refine ⟨_, _, rfl, ?_⟩
    have hbackslash : ∀ {quote : Char}, quote = '"' ∨ quote = '\'' → quote ≠ '\\' := by
      rintro _ (rfl | rfl) <;> decide
    rw [scanPiece_quote hquote, hbody.scanString (hbackslash hquote)]
    simp

theorem spells_of_mem_scan {text : List Char} {tokens : Array Token} {t : Token} (h : scan text = .ok tokens)
    (ht : t ∈ tokens) (hkind : t.kind ≠ .endOfInput)
    : Spells (slice text t) t.kind := by
  obtain ⟨loc, hlast, -⟩ := (divides_of_scan h).last
  have ht : t ∈ tokens.toList.dropLast ++ [⟨.endOfInput, loc⟩] := by
    rw [List.dropLast_append_getLast? _ hlast]
    exact Array.mem_toList_iff.2 ht
  rcases List.mem_append.1 ht with ht | ht
  . exact (spells_of_scan h).1 t ht
  . exact absurd (congrArg Token.kind (List.mem_singleton.1 ht)) hkind

/--
A text between two quotes is a single string, in whichever way its characters are written and wherever it is
continued on the next line. Every string of a script stands for what is written so between its quotes.
-/
theorem scan_quoted (s : String)
    : (∀ text, Quoted s text →
        ∃ last, scan text = .ok #[⟨.string s, ⟨1, 1, 0, text.length⟩⟩, ⟨.endOfInput, last⟩]) ∧
      ∀ text tokens, scan text = .ok tokens → ∀ t ∈ tokens, t.kind = .string s → Quoted s (slice text t) := by
  constructor
  . intro text hquoted
    exact spells_iff_scan.1 (spells_string_iff.2 hquoted)
  . intro text tokens hscan t ht hkind
    have hspells := spells_of_mem_scan hscan ht (by simp [hkind])
    rw [hkind] at hspells
    exact spells_string_iff.1 hspells

/-- A call with a literal that has escapes of all lengths in it and goes on in the next line. -/
def greetingScript : List Char :=
  "f('it\\'s \\x41\\\n\\u00e9\\0')".toList

def greetingLiteral : List Char :=
  "'it\\'s \\x41\\\n\\u00e9\\0'".toList

def greeting : Token :=
  ⟨.string "it's A\xe9\x00", ⟨1, 3, 2, 22⟩⟩

theorem scan_quoted_greeting
    : Quoted "it's A\xe9\x00" greetingLiteral ∧
      ∃ last, scan greetingLiteral = .ok #[⟨.string "it's A\xe9\x00", ⟨1, 1, 0, 22⟩⟩, ⟨.endOfInput, last⟩] := by
  have hscan : scan greetingScript = .ok #[
      ⟨.name "f", ⟨1, 1, 0, 1⟩⟩, ⟨.symbol .leftParen, ⟨1, 2, 1, 1⟩⟩, greeting,
      ⟨.symbol .rightParen, ⟨2, 10, 24, 1⟩⟩, ⟨.endOfInput, ⟨2, 11, 25, 0⟩⟩] := by
    decide +kernel
  have hslice : slice greetingScript greeting = greetingLiteral := by
    decide +kernel
  have hquoted := (scan_quoted "it's A\xe9\x00").2 greetingScript _ hscan greeting (by simp) rfl
  rw [hslice] at hquoted
  exact ⟨hquoted, (scan_quoted "it's A\xe9\x00").1 greetingLiteral hquoted⟩

end ScriptHost.Token
