import Mathlib.Data.List.TakeWhile
import ScriptHost.Token.Scan

/-!
This module contains the spellings of numbers: what the reading of a number takes from a text, and that
the text behind it does not matter as long as the number cannot go on there.
-/

namespace ScriptHost

namespace Text

/-- No character with the property stands first in a text. -/
def StartsNo (p : Char → Bool) (cs : List Char) : Prop :=
  ∀ c ∈ cs.head?, p c = false

theorem takeWhile_append_of_all {p : Char → Bool} {cs rest : List Char} (hcs : ∀ c ∈ cs, p c = true)
    (hrest : StartsNo p rest)
    : (cs ++ rest).takeWhile p = cs := by
  rw [List.takeWhile_append_of_pos hcs]
  cases rest with
  | nil => simp
  | cons c rest => simp [hrest c rfl]

theorem dropWhile_append_of_all {p : Char → Bool} {cs rest : List Char} (hcs : ∀ c ∈ cs, p c = true)
    (hrest : StartsNo p rest)
    : (cs ++ rest).dropWhile p = rest := by
  rw [List.dropWhile_append_of_pos hcs]
  cases rest with
  | nil => simp
  | cons c rest => simp [hrest c rfl]

theorem startsNo_dropWhile (p : Char → Bool) (cs : List Char) : StartsNo p (cs.dropWhile p) := by
  intro c hc
  have := List.head?_dropWhile_not p cs
  rw [Option.mem_def] at hc
  rw [hc] at this
  simpa using this

end Text

namespace Decimal

open Text (StartsNo)

/-- The ways to spell an exponent, of which one is to leave it out. -/
inductive IsExponent : List Char → Prop
  | none : IsExponent []
  | some {e : Char} {sign digits : List Char} (mark : e = 'e' ∨ e = 'E')
    (sign_mem : sign ∈ [[], ['+'], ['-']]) (nonempty : digits ≠ []) (digits_all : ∀ c ∈ digits, c.isDigit)
    : IsExponent (e :: (sign ++ digits))

theorem scanExponent_spec (cs : List Char)
    : ∃ text rest, cs = text ++ rest ∧ IsExponent text ∧ (scanExponent cs).2 = text.length ∧
      (text ≠ [] → StartsNo Char.isDigit rest) := by
  fun_cases scanExponent cs with
  | case1 => exact ⟨[], [], rfl, .none, rfl, by simp⟩
  | case2 e cs he negative signLength rest hsign digits hempty =>
    exact ⟨[], e :: cs, rfl, .none, rfl, by simp⟩
  | case3 e cs he negative signLength rest hsign digits hempty n =>
    obtain ⟨sign, hmem, hlength, hcs⟩
        : ∃ sign ∈ [[], ['+'], ['-']], signLength = sign.length ∧ cs = sign ++ rest := by
      split at hsign <;> cases hsign
      . exact ⟨['+'], by simp, rfl, rfl⟩
      . exact ⟨['-'], by simp, rfl, rfl⟩
      . exact ⟨[], by simp, rfl, rfl⟩
    refine ⟨e :: (sign ++ digits), rest.dropWhile Char.isDigit, ?_,
      .some he hmem (by simpa using hempty) (fun c hc => List.mem_takeWhile_imp hc), ?_,
      fun _ => Text.startsNo_dropWhile _ _⟩
    . simp [hcs, digits, List.takeWhile_append_dropWhile]
    . simp only [hlength, List.length_cons, List.length_append]
      omega
  | case4 e cs he => exact ⟨[], e :: cs, rfl, .none, rfl, by simp⟩

theorem isDigit_ne {c d : Char} (hc : c.isDigit = true) (hd : d.isDigit = false) : c ≠ d := by
  rintro rfl
  simp [hc] at hd

/-- An exponent is the number of its digits, with its sign. -/
theorem scanExponent_some {e : Char} {sign digits : List Char} (mark : e = 'e' ∨ e = 'E')
    (sign_mem : sign ∈ [[], ['+'], ['-']]) (nonempty : digits ≠ []) (digits_all : ∀ c ∈ digits, c.isDigit)
    : scanExponent (e :: (sign ++ digits)) =
      (if sign = ['-'] then -(ofExponentDigits digits : Int) else ofExponentDigits digits,
        (e :: (sign ++ digits)).length) := by
  have hself : digits.takeWhile Char.isDigit = digits := List.takeWhile_eq_self_iff.2 digits_all
  obtain ⟨d, ds, rfl⟩ := List.exists_cons_of_ne_nil nonempty
  have hd := digits_all d (by simp)
  have hplus : d ≠ '+' := isDigit_ne hd (by decide)
  have hminus : d ≠ '-' := isDigit_ne hd (by decide)
  simp only [List.mem_cons, List.not_mem_nil, or_false] at sign_mem
  rcases sign_mem with rfl | rfl | rfl
  all_goals
    simp only [List.nil_append, List.cons_append] at hself ⊢
    simp [scanExponent, mark, hself, hplus, hminus]
    try omega

/-- An exponent is read the same whatever follows, unless it could go on or begin there. -/
theorem scanExponent_append {text rest : List Char} (htext : IsExponent text)
    (hdigit : StartsNo Char.isDigit rest) (hmark : text = [] → StartsNo (fun c => c = 'e' || c = 'E') rest)
    : scanExponent (text ++ rest) = scanExponent text := by
  cases htext with
  | none =>
    cases rest with
    | nil => rfl
    | cons c rest =>
      have := hmark rfl c rfl
      simp only [Bool.or_eq_false_iff, decide_eq_false_iff_not] at this
      simp [scanExponent, this]
  | @some e sign digits mark hsign nonempty hdigits =>
    have htake : (digits ++ rest).takeWhile Char.isDigit = digits :=
      Text.takeWhile_append_of_all hdigits hdigit
    have hself : digits.takeWhile Char.isDigit = digits := List.takeWhile_eq_self_iff.2 hdigits
    obtain ⟨d, ds, rfl⟩ := List.exists_cons_of_ne_nil nonempty
    have hd := hdigits d (by simp)
    have hplus : d ≠ '+' := isDigit_ne hd (by decide)
    have hminus : d ≠ '-' := isDigit_ne hd (by decide)
    simp only [List.mem_cons, List.not_mem_nil, or_false] at hsign
    rcases hsign with rfl | rfl | rfl
    all_goals
      simp only [List.nil_append, List.cons_append] at htake hself ⊢
      simp [scanExponent, mark, htake, hself, hplus, hminus]

theorem IsExponent.startsNo {text rest : List Char} {p : Char → Bool} (htext : IsExponent text)
    (hrest : text = [] → StartsNo p rest) (hsmall : p 'e' = false) (hcapital : p 'E' = false)
    : StartsNo p (text ++ rest) := by
  cases htext with
  | none => exact hrest rfl
  | some mark =>
    rintro c ⟨⟩
    rcases mark with rfl | rfl
    . exact hsmall
    . exact hcapital

/-- The point and the fraction that a text starts with, and the text behind them. -/
def splitFraction : List Char → List Char × List Char × List Char
  | '.' :: rest => (['.'], rest.takeWhile Char.isDigit, rest.dropWhile Char.isDigit)
  | rest => ([], [], rest)

theorem scan_eq (cs : List Char)
    : scan cs =
      let whole := cs.takeWhile Char.isDigit
      let (point, fraction, rest) := splitFraction (cs.dropWhile Char.isDigit)
      if whole = [] ∧ fraction = [] then none
      else some (⟨Text.ofDecimalDigits (whole ++ fraction), (scanExponent rest).1 - fraction.length⟩,
        whole.length + point.length + fraction.length + (scanExponent rest).2) := by
  unfold scan
  dsimp only
  generalize cs.dropWhile Char.isDigit = rest
  simp only [Bool.and_eq_true, List.isEmpty_iff]
  split
  . rfl
  . next hrest => simp [splitFraction]

/-- The ways to spell a number without a sign. -/
structure IsDecimal (whole point fraction exponent : List Char) : Prop where
  whole_all : ∀ c ∈ whole, c.isDigit
  fraction_all : ∀ c ∈ fraction, c.isDigit
  point_cases : point = ['.'] ∨ point = [] ∧ fraction = []
  exponent_cases : IsExponent exponent
  nonempty : whole = [] → fraction ≠ []

theorem not_mem_of_isDigit {digits : List Char} {d : Char} (hdigits : ∀ c ∈ digits, c.isDigit)
    (hd : d.isDigit = false)
    : d ∉ digits :=
  fun h => isDigit_ne (hdigits d h) hd rfl

theorem IsExponent.one_line {text : List Char} (h : IsExponent text) : '\n' ∉ text := by
  cases h with
  | none => simp
  | some mark hsign _ hdigits =>
    have hmem := not_mem_of_isDigit hdigits (d := '\n') (by decide)
    simp only [List.mem_cons, List.not_mem_nil, or_false] at hsign
    rcases mark with rfl | rfl <;> rcases hsign with rfl | rfl | rfl <;> simpa using hmem

theorem IsDecimal.one_line {whole point fraction exponent : List Char}
    (h : IsDecimal whole point fraction exponent)
    : '\n' ∉ whole ++ point ++ fraction ++ exponent := by
  have hwhole := not_mem_of_isDigit h.whole_all (d := '\n') (by decide)
  have hfraction := not_mem_of_isDigit h.fraction_all (d := '\n') (by decide)
  have hexponent := h.exponent_cases.one_line
  rcases h.point_cases with rfl | ⟨rfl, rfl⟩ <;> simp [*]

theorem IsDecimal.length_pos {whole point fraction exponent : List Char}
    (h : IsDecimal whole point fraction exponent)
    : 0 < whole.length + point.length + fraction.length + exponent.length := by
  by_cases hwhole : whole = []
  . have := List.length_pos_iff.2 (h.nonempty hwhole)
    omega
  . have := List.length_pos_iff.2 hwhole
    omega

theorem splitFraction_spec {cs point fraction rest : List Char}
    (h : splitFraction cs = (point, fraction, rest)) (hcs : StartsNo Char.isDigit cs)
    : cs = point ++ (fraction ++ rest) ∧ (∀ c ∈ fraction, c.isDigit) ∧
      (point = ['.'] ∨ point = [] ∧ fraction = []) ∧ StartsNo Char.isDigit rest ∧
      (point = [] → StartsNo (· = '.') rest) := by
  unfold splitFraction at h
  split at h
  . next cs =>
    cases h
    exact ⟨by simp [List.takeWhile_append_dropWhile], fun c hc => List.mem_takeWhile_imp hc, .inl rfl,
      Text.startsNo_dropWhile _ _, by simp⟩
  . next hpoint =>
    cases h
    refine ⟨rfl, by simp, .inr ⟨rfl, rfl⟩, hcs, fun _ c hc => ?_⟩
    obtain ⟨tail, rfl⟩ := List.head?_eq_some_iff.1 hc
    simpa using fun h => hpoint tail (by rw [h])

theorem scan_spec {cs : List Char} {d : Decimal} {n : Nat} (h : scan cs = some (d, n))
    : ∃ whole point fraction exponent rest, cs = whole ++ (point ++ (fraction ++ (exponent ++ rest))) ∧
      IsDecimal whole point fraction exponent ∧
      n = whole.length + point.length + fraction.length + exponent.length ∧
      StartsNo Char.isDigit rest ∧ (point = [] → exponent = [] → StartsNo (· = '.') rest) := by
  rw [scan_eq] at h
  generalize hsplit : splitFraction (cs.dropWhile Char.isDigit) = parts at h
  obtain ⟨point, fraction, behind⟩ := parts
  obtain ⟨hcs, hfraction, hpoint, hdigit, hdot⟩ :=
    splitFraction_spec hsplit (Text.startsNo_dropWhile _ _)
  obtain ⟨exponent, rest, rfl, hexponent, hlength, hends⟩ := scanExponent_spec behind
  dsimp only at h
  split at h
  . cases h
  . next hnonempty =>
    cases h
    refine ⟨cs.takeWhile Char.isDigit, point, fraction, exponent, rest, ?_,
      ⟨fun c hc => List.mem_takeWhile_imp hc, hfraction, hpoint, hexponent,
        fun hwhole hfraction => hnonempty ⟨hwhole, hfraction⟩⟩, by rw [hlength], ?_, ?_⟩
    . rw [← hcs, List.takeWhile_append_dropWhile]
    . by_cases hempty : exponent = []
      . simpa [hempty] using hdigit
      . exact hends hempty
    . rintro hp rfl
      exact hdot hp

/-- A number is read the same whatever follows, unless it could go on there. -/
theorem scan_append {whole point fraction exponent rest : List Char}
    (h : IsDecimal whole point fraction exponent) (hdigit : StartsNo Char.isDigit rest)
    (hdot : point = [] → exponent = [] → StartsNo (· = '.') rest)
    (hmark : StartsNo (fun c => c = 'e' || c = 'E') rest)
    : scan (whole ++ (point ++ (fraction ++ (exponent ++ rest)))) =
      some (⟨Text.ofDecimalDigits (whole ++ fraction), (scanExponent exponent).1 - fraction.length⟩,
        whole.length + point.length + fraction.length + (scanExponent exponent).2) := by
  have hbehind : StartsNo Char.isDigit (exponent ++ rest) :=
    h.exponent_cases.startsNo (fun _ => hdigit) (by decide) (by decide)
  have hsplit : splitFraction (point ++ (fraction ++ (exponent ++ rest))) =
      (point, fraction, exponent ++ rest) := by
    rcases h.point_cases with rfl | ⟨rfl, rfl⟩
    . simp only [List.singleton_append, splitFraction]
      rw [Text.takeWhile_append_of_all h.fraction_all hbehind,
        Text.dropWhile_append_of_all h.fraction_all hbehind]
    . have : StartsNo (· = '.') (exponent ++ rest) :=
        h.exponent_cases.startsNo (hdot rfl) (by decide) (by decide)
      unfold splitFraction
      split
      . next rest hrest =>
        simp only [List.nil_append] at hrest
        have := this '.' (by rw [hrest]; rfl)
        simp at this
      . rfl
  have hwhole : StartsNo Char.isDigit (point ++ (fraction ++ (exponent ++ rest))) := by
    rcases h.point_cases with rfl | ⟨rfl, rfl⟩
    . rintro c ⟨⟩
      decide
    . exact hbehind
  rw [scan_eq, Text.takeWhile_append_of_all h.whole_all hwhole,
    Text.dropWhile_append_of_all h.whole_all hwhole, hsplit]
  have hnonempty : ¬ (whole = [] ∧ fraction = []) := fun hempty => h.nonempty hempty.1 hempty.2
  simp only [hnonempty, if_false, scanExponent_append h.exponent_cases hdigit (fun _ => hmark)]

theorem IsExponent.length_eq {text : List Char} (h : IsExponent text) : (scanExponent text).2 = text.length := by
  cases h with
  | none => rfl
  | some mark hsign hne hdigits => rw [scanExponent_some mark hsign hne hdigits]

/-- A character that a spelled number may have. -/
def isNumberPart (c : Char) : Bool :=
  c.isDigit || c ∈ ['.', 'e', 'E', '+', '-']

theorem IsExponent.all {text : List Char} (h : IsExponent text) : ∀ c ∈ text, isNumberPart c := by
  cases h with
  | none => exact nofun
  | @some e sign digits mark hsign _ hdigits =>
    intro c hc
    simp only [List.mem_cons, List.mem_append] at hc
    simp only [List.mem_cons, List.not_mem_nil, or_false] at hsign
    rcases hc with rfl | hc | hc
    . rcases mark with rfl | rfl <;> decide
    . rcases hsign with rfl | rfl | rfl <;> simp_all [isNumberPart]
    . simp [isNumberPart, hdigits c hc]

theorem IsDecimal.all {whole point fraction exponent : List Char} (h : IsDecimal whole point fraction exponent)
    : ∀ c ∈ whole ++ (point ++ (fraction ++ exponent)), isNumberPart c := by
  intro c hc
  simp only [List.mem_append] at hc
  rcases hc with hc | hc | hc | hc
  . simp [isNumberPart, h.whole_all c hc]
  . rcases h.point_cases with rfl | ⟨rfl, -⟩ <;> simp_all [isNumberPart]
  . simp [isNumberPart, h.fraction_all c hc]
  . exact h.exponent_cases.all c hc

/-- The number of a whole part, a fraction and an exponent. -/
def ofParts (whole fraction exponent : List Char) : Decimal :=
  ⟨Text.ofDecimalDigits (whole ++ fraction), (scanExponent exponent).1 - fraction.length⟩

theorem read?_parts {whole point fraction exponent : List Char} (h : IsDecimal whole point fraction exponent)
    : read? (whole ++ (point ++ (fraction ++ exponent))) = some (ofParts whole fraction exponent) := by
  have hscan := @scan_append _ _ _ _ [] h nofun (fun _ _ => nofun) nofun
  rw [List.append_nil, h.exponent_cases.length_eq] at hscan
  rw [read?, hscan]
  exact if_pos (by simp only [List.length_append]; omega)

theorem read?_eq_some_iff {cs : List Char} {d : Decimal}
    : read? cs = some d ↔
      ∃ whole point fraction exponent, IsDecimal whole point fraction exponent ∧
        cs = whole ++ (point ++ (fraction ++ exponent)) ∧ d = ofParts whole fraction exponent := by
  constructor
  . intro h
    unfold read? at h
    split at h
    . next d' n hscan =>
      split at h
      . next hn =>
        cases h
        obtain ⟨whole, point, fraction, exponent, rest, rfl, hdecimal, hlength, -⟩ := scan_spec hscan
        obtain rfl : rest = [] := by
          rw [hn] at hlength
          simp only [List.length_append] at hlength
          exact List.length_eq_zero_iff.1 (by omega)
        rw [List.append_nil] at hn hscan ⊢
        have hread := read?_parts hdecimal
        simp only [read?, hscan, if_pos hn] at hread
        exact ⟨whole, point, fraction, exponent, hdecimal, rfl, Option.some.inj hread⟩
      . cases h
    . cases h
  . rintro ⟨whole, point, fraction, exponent, h, rfl, rfl⟩
    exact read?_parts h

end Decimal
end ScriptHost
