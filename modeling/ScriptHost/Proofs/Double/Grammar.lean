import ScriptHost.Proofs.Double.Hex
import ScriptHost.Proofs.Token.Slices

/-!
This module contains the grammar of numbers. A number literal and the text of a number follow the same
one, so a script that is a single number is the text of this number.
-/

namespace ScriptHost

namespace Double

open Decimal (IsDecimal ofParts)
open Text (StartsNo)

variable {cs : List Char} {x : Double}

/-- The spellings of numbers without a sign, and the doubles that they stand for. -/
inductive Spells : List Char → Double → Prop
  | hex {mark : Char} {digits : List Char} {x : Double} (mark_eq : mark = 'x' ∨ mark = 'X')
    (value : ofHexDigits? digits = some x)
    : Spells ('0' :: mark :: digits) x
  | decimal {whole point fraction exponent : List Char} (parts : IsDecimal whole point fraction exponent)
    : Spells (whole ++ (point ++ (fraction ++ exponent))) (ofParts whole fraction exponent).toDouble

theorem spells_of_read? {d : Decimal} (h : Decimal.read? cs = some d) : Spells cs d.toDouble := by
  obtain ⟨whole, point, fraction, exponent, hparts, rfl, rfl⟩ := Decimal.read?_eq_some_iff.1 h
  exact .decimal hparts

/-! No spelling is that of a NaN. -/

theorem isNaN_ofMagnitude {negative : Bool} {m : Nat} (hm : m ≤ infiniteMagnitude)
    : (ofMagnitude negative m).isNaN = false := by
  rw [isNaN, magnitude_ofMagnitude (lt_magnitudeCount hm)]
  exact decide_eq_false (Nat.not_lt.2 hm)

theorem isNaN_ofUnits (negative : Bool) (n d : Nat) : (ofUnits negative n d).isNaN = false :=
  isNaN_ofMagnitude (Nat.min_le_right _ _)

theorem isNaN_toDouble (d : Decimal) : d.toDouble.isNaN = false := by
  fun_cases Decimal.toDouble d
  . exact isNaN_ofMagnitude (Nat.zero_le _)
  . exact isNaN_ofMagnitude (Nat.le_refl _)
  . exact isNaN_ofMagnitude (Nat.zero_le _)
  . exact isNaN_ofUnits ..
  . exact isNaN_ofUnits ..

theorem Spells.isNaN (h : Spells cs x) : x.isNaN = false := by
  cases h with
  | hex _ hvalue =>
    rw [ofHexDigits?_magnitude hvalue]
    exact isNaN_ofUnits ..
  | decimal => exact isNaN_toDouble _

/-! Literals. -/

/-- A spelled number begins with a digit, or with a point in front of a digit. -/
theorem Spells.startsNumber {c : Char} {word : List Char} (h : Spells (c :: word) x)
    : Token.startsNumber c word = true := by
  generalize htext : c :: word = cs at h
  cases h with
  | hex =>
    cases htext
    rfl
  | @decimal whole point fraction exponent hparts =>
    cases whole with
    | cons d whole =>
      cases htext
      simp [Token.startsNumber, hparts.whole_all c List.mem_cons_self]
    | nil =>
      obtain ⟨d, fraction, rfl⟩ := List.exists_cons_of_ne_nil (hparts.nonempty rfl)
      have hpoint : point = ['.'] := hparts.point_cases.resolve_right fun h => by cases h.2
      subst hpoint
      cases htext
      simp [Token.startsNumber, hparts.fraction_all d List.mem_cons_self]

theorem not_spells_nil : ¬ Spells [] x := by
  intro h
  generalize htext : [] = cs at h
  cases h with
  | hex => cases htext
  | decimal hparts =>
    have hlength := congrArg List.length htext
    have hpositive := hparts.length_pos
    simp only [List.length_append, List.length_nil] at hlength
    omega

theorem scanDecimal_of_read? {d : Decimal} (h : Decimal.read? cs = some d)
    : Token.scanNumber.scanDecimal cs = .token (.number d.toDouble) (cs.length - 1) := by
  cases hscan : Decimal.scan cs with
  | none =>
    rw [Decimal.read?, hscan] at h
    cases h
  | some found =>
    rw [Decimal.read?, hscan] at h
    obtain ⟨hn, hd⟩ := Option.ite_none_right_eq_some.1 h
    cases hd
    rw [Token.scanNumber.scanDecimal, hscan]
    simp [hn]

theorem read?_of_scanDecimal {c : Char} {word : List Char}
    (h : Token.scanNumber.scanDecimal (c :: word) = .token (.number x) word.length)
    : ∃ d, Decimal.read? (c :: word) = some d ∧ x = d.toDouble := by
  unfold Token.scanNumber.scanDecimal at h
  split at h
  . next d n hscan =>
    split at h
    . cases h
    . obtain ⟨hkind, hn⟩ := Token.Piece.token.inj h
      obtain ⟨whole, point, fraction, exponent, rest, -, hparts, rfl, -⟩ := Decimal.scan_spec hscan
      have hpositive := hparts.length_pos
      refine ⟨d, ?_, (TokenKind.number.inj hkind).symm⟩
      rw [Decimal.read?, hscan]
      exact if_pos (by rw [List.length_cons]; omega)
  . cases h

theorem not_read?_hex {mark : Char} {digits : List Char} (hmark : mark = 'x' ∨ mark = 'X') {d : Decimal}
    : Decimal.read? ('0' :: mark :: digits) ≠ some d := by
  intro h
  obtain ⟨whole, point, fraction, exponent, hparts, htext, -⟩ := Decimal.read?_eq_some_iff.1 h
  have hpart := hparts.all mark (by rw [← htext]; simp)
  revert hpart
  rcases hmark with rfl | rfl <;> decide

theorem isHexDigit_of_ofHexDigits? {digits : List Char} (h : ofHexDigits? digits = some x)
    : ∀ c ∈ digits, Text.isHexDigit c = true := by
  intro c hc
  by_contra hno
  have hnone : ofHexDigits? digits = none :=
    ofHexDigits?_eq_none_iff.2 (.inr ⟨c, hc, by simpa [Text.isHexDigit] using hno⟩)
  rw [h] at hnone
  cases hnone

theorem scanNumber_hex_iff {mark : Char} {digits : List Char} (hmark : mark = 'x' ∨ mark = 'X')
    : Token.scanNumber ('0' :: mark :: digits) = .token (.number x) (digits.length + 1) ↔
      ofHexDigits? digits = some x := by
  constructor
  . intro h
    rw [Token.scanNumber_eq, if_pos ⟨rfl, by simpa using hmark⟩, List.tail_cons] at h
    cases hvalue : ofHexDigits? (digits.takeWhile Text.isHexDigit) with
    | none =>
      rw [hvalue] at h
      cases h
    | some y =>
      rw [hvalue] at h
      obtain ⟨hkind, hlength⟩ := Token.Piece.token.inj h
      have htake : digits.takeWhile Text.isHexDigit = digits :=
        (List.takeWhile_prefix _).eq_of_length (by omega)
      rw [htake, TokenKind.number.inj hkind] at hvalue
      exact hvalue
  . intro h
    have hscan := @scanNumber_hex digits [] mark hmark (isHexDigit_of_ofHexDigits? h) nofun
    rw [List.append_nil, h, Option.elim, Nat.add_comm] at hscan
    exact hscan

theorem spells_hex_iff {mark : Char} {digits : List Char} (hmark : mark = 'x' ∨ mark = 'X')
    : Spells ('0' :: mark :: digits) x ↔ ofHexDigits? digits = some x := by
  constructor
  . intro h
    generalize htext : '0' :: mark :: digits = cs at h
    cases h with
    | hex _ hvalue =>
      cases htext
      exact hvalue
    | decimal hparts => exact absurd (htext ▸ Decimal.read?_parts hparts) (not_read?_hex hmark)
  . exact .hex hmark

/-- Without the mark of hexadecimal digits there are only the decimal spellings. -/
theorem spells_decimal_iff (h : ∀ mark digits, cs = '0' :: mark :: digits → mark ≠ 'x' ∧ mark ≠ 'X')
    : Spells cs x ↔ ∃ d, Decimal.read? cs = some d ∧ x = d.toDouble := by
  constructor
  . intro hspells
    cases hspells with
    | @hex mark digits _ hmark => exact absurd hmark (not_or.2 (h mark digits rfl))
    | decimal hparts => exact ⟨_, Decimal.read?_parts hparts, rfl⟩
  . rintro ⟨d, hread, rfl⟩
    exact spells_of_read? hread

theorem scanNumber_iff_spells {c : Char} {word : List Char}
    : Token.scanNumber (c :: word) = .token (.number x) word.length ↔ Spells (c :: word) x := by
  by_cases hhex : c = '0' ∧ (word.head? = some 'x' ∨ word.head? = some 'X')
  . obtain ⟨rfl, hhead⟩ := hhex
    cases word with
    | nil => simp at hhead
    | cons mark digits =>
      have hmark : mark = 'x' ∨ mark = 'X' := by simpa using hhead
      rw [spells_hex_iff hmark, ← scanNumber_hex_iff hmark, List.length_cons]
  . rw [Token.scanNumber_eq, if_neg hhex, spells_decimal_iff]
    . constructor
      . exact read?_of_scanDecimal
      . rintro ⟨d, hread, rfl⟩
        exact scanDecimal_of_read? hread
    . rintro mark digits ⟨⟩
      simpa using hhex

theorem isBlank_of_isNumberPart {c : Char} (h : Decimal.isNumberPart c = true) : Text.isBlank c = false := by
  simp only [Decimal.isNumberPart, Bool.or_eq_true, decide_eq_true_eq, List.mem_cons, List.not_mem_nil,
    or_false] at h
  rcases h with hdigit | rfl | rfl | rfl | rfl | rfl
  . have hrange : 48 ≤ c.toNat ∧ c.toNat ≤ 57 := by
      simpa [Char.isDigit, UInt32.le_iff_toNat_le] using hdigit
    simp only [Text.isBlank, Text.inRanges, Text.blankRanges, List.any_cons, List.any_nil, Bool.or_false,
      Bool.or_eq_false_iff, Bool.and_eq_false_iff, decide_eq_false_iff_not]
    omega
  all_goals decide

theorem scanPiece_of_startsNumber {c : Char} {word : List Char} (h : Token.startsNumber c word = true)
    : Token.scanPiece c word = Token.scanNumber (c :: word) := by
  have hc : c.isDigit = true ∨ c = '.' := by
    simp only [Token.startsNumber, Bool.or_eq_true, Bool.and_eq_true, decide_eq_true_eq] at h
    exact h.imp_right And.left
  have hne : ∀ d, d.isDigit = false → d ≠ '.' → c ≠ d := by
    rintro d hdigit hpoint rfl
    rcases hc with hc | hc
    . rw [hc] at hdigit
      cases hdigit
    . exact hpoint hc
  have hblank : Text.isBlank c = false := by
    refine isBlank_of_isNumberPart ?_
    rcases hc with hc | rfl
    . simp [Decimal.isNumberPart, hc]
    . decide
  unfold Token.scanPiece
  rw [if_neg (by simp [hblank]), if_neg fun hline => hne '/' (by decide) (by decide) hline.1,
    if_neg fun hblock => hne '/' (by decide) (by decide) hblock.1,
    if_neg fun hquote => hquote.elim (hne _ (by decide) (by decide)) (hne _ (by decide) (by decide)), if_pos h]

theorem spells_of_number {c : Char} {word : List Char}
    (h : Token.scanPiece c word = .token (.number x) word.length)
    : Spells (c :: word) x := by
  rw [← scanNumber_iff_spells]
  by_cases hstart : Token.startsNumber c word = true
  . rwa [scanPiece_of_startsNumber hstart] at h
  . -- the other tokens are no numbers
    exfalso
    unfold Token.scanPiece at h
    split at h
    . cases h
    split at h
    . cases h
    split at h
    . split at h <;> cases h
    split at h
    . have hliteral := Token.literal_scanString c word [] 0
      rw [h] at hliteral
      obtain ⟨⟨s, hkind⟩, -⟩ := hliteral
      cases hkind
    split at h
    . unfold Token.scanName at h
      dsimp only at h
      split at h <;> cases h
    . split at h <;> cases h

theorem token_spells_iff : Token.Spells cs (.number x) ↔ Spells cs x := by
  constructor
  . rintro ⟨c, word, rfl, h⟩
    exact spells_of_number h
  . intro h
    cases cs with
    | nil => exact absurd h not_spells_nil
    | cons c word =>
      exact ⟨c, word, rfl, (scanPiece_of_startsNumber h.startsNumber).trans (scanNumber_iff_spells.2 h)⟩

/-! Texts. -/

theorem trim_eq_self (hfirst : StartsNo Text.isBlank cs) (hlast : ∀ c ∈ cs.getLast?, Text.isBlank c = false)
    : Text.trim cs = cs := by
  have hdrop : ∀ {cs}, StartsNo Text.isBlank cs → ([] ++ cs).dropWhile Text.isBlank = cs :=
    fun h => Text.dropWhile_append_of_all nofun h
  simp only [List.nil_append] at hdrop
  rw [Text.trim, hdrop hfirst, hdrop fun c hc => hlast c (by rwa [← List.head?_reverse]), List.reverse_reverse]

theorem ofTrimmed_minus (cs : List Char)
    : ofTrimmed ('-' :: cs) =
      if cs = "Infinity".toList then infinity true
      else (Decimal.read? cs).elim nan fun d => d.toDouble.neg := by
  rw [ofTrimmed]
  cases Decimal.read? cs <;> rfl

theorem ofTrimmed_unsigned (hne : cs ≠ []) (hsign : cs.head? ≠ some '+' ∧ cs.head? ≠ some '-')
    (hhex : ∀ mark digits, cs = '0' :: mark :: digits → mark ≠ 'x' ∧ mark ≠ 'X')
    : ofTrimmed cs =
      if cs = "Infinity".toList then infinity false
      else (Decimal.read? cs).elim nan Decimal.toDouble := by
  rw [ofTrimmed]
  . cases Decimal.read? cs <;> rfl
  . exact hne
  . exact fun digits htext => (hhex _ _ htext).1 rfl
  . exact fun digits htext => (hhex _ _ htext).2 rfl
  . rintro rest rfl
    exact hsign.1 rfl
  . rintro rest rfl
    exact hsign.2 rfl

theorem ofTrimmed_hex {mark : Char} {digits : List Char} (hmark : mark = 'x' ∨ mark = 'X')
    : ofTrimmed ('0' :: mark :: digits) = (ofHexDigits? digits).getD nan := by
  rcases hmark with rfl | rfl <;> rfl

theorem isNaN_nan : nan.isNaN = true := by
  decide

theorem ofTrimmed_iff_spells (hne : cs ≠ []) (hsign : cs.head? ≠ some '+' ∧ cs.head? ≠ some '-')
    (hinfinity : cs ≠ "Infinity".toList)
    : (ofTrimmed cs).isNaN = false ∧ ofTrimmed cs = x ↔ Spells cs x := by
  by_cases hhex : ∃ mark digits, (mark = 'x' ∨ mark = 'X') ∧ cs = '0' :: mark :: digits
  . obtain ⟨mark, digits, hmark, rfl⟩ := hhex
    rw [spells_hex_iff hmark, ofTrimmed_hex hmark]
    cases hvalue : ofHexDigits? digits with
    | none => simp [isNaN_nan]
    | some y => simpa using fun h => h ▸ (Spells.hex hmark hvalue).isNaN
  . have hhex : ∀ mark digits, cs = '0' :: mark :: digits → mark ≠ 'x' ∧ mark ≠ 'X' :=
      fun mark digits htext => not_or.1 fun hmark => hhex ⟨mark, digits, hmark, htext⟩
    rw [spells_decimal_iff hhex, ofTrimmed_unsigned hne hsign hhex, if_neg hinfinity]
    cases hread : Decimal.read? cs with
    | none => simp [isNaN_nan]
    | some d => simp [isNaN_toDouble, eq_comm]

/--
A script without blanks around it is a single number exactly if its text is that number, unless a sign or the
name of an infinity is read from the text. The scripts that are so are the spellings of numbers.
-/
theorem scan_number_iff {s : String} {x : Double} (hne : s ≠ "") (hfirst : StartsNo Text.isBlank s.toList)
    (hlast : ∀ c ∈ s.toList.getLast?, Text.isBlank c = false)
    (hsign : s.toList.head? ≠ some '+' ∧ s.toList.head? ≠ some '-') (hinfinity : s ≠ "Infinity")
    : let scans := ∃ last, Token.scan s.toList =
        .ok #[⟨.number x, ⟨1, 1, 0, s.length⟩⟩, ⟨.endOfInput, last⟩]
      (scans ↔ (ofText s).isNaN = false ∧ ofText s = x) ∧ (scans ↔ Spells s.toList x) := by
  intro scans
  have hscans : scans ↔ Spells s.toList x := by
    rw [← token_spells_iff, Token.spells_iff_scan, String.length_toList]
  have htext : ofText s = ofTrimmed s.toList := by
    rw [ofText, trim_eq_self hfirst hlast]
  refine ⟨?_, hscans⟩
  rw [hscans, htext, ofTrimmed_iff_spells _ hsign]
  . exact fun h => hinfinity (String.toList_inj.1 h)
  . exact fun h => hne (String.toList_inj.1 h)

/-- The point of `.5e+2` has no digits before it. -/
theorem scan_number_fifty
    : ∃ last, Token.scan ".5e+2".toList =
        .ok #[⟨.number (ofNat 50), ⟨1, 1, 0, 5⟩⟩, ⟨.endOfInput, last⟩] := by
  have hfirst : StartsNo Text.isBlank ".5e+2".toList := by
    rintro c ⟨⟩
    decide
  have hlast : ∀ c ∈ ".5e+2".toList.getLast?, Text.isBlank c = false := by
    rintro c ⟨⟩
    decide
  exact (scan_number_iff (s := ".5e+2") (by decide) hfirst hlast (by decide) (by decide)).1.2 (by decide +kernel)

end Double
end ScriptHost
