import Mathlib.Data.List.Forall2
import ScriptHost.Proofs.Token.Moved

/-!
This module contains tokens on their own: what a token is depends on its own text only, so neither blanks
nor comments between the tokens of a script can change one of them.
-/

namespace ScriptHost.Token

/-- The text of a token in a script. -/
def slice (text : List Char) (t : Token) : List Char :=
  text.extract t.loc.offset t.loc.endOffset

/-- The texts of the tokens in front of the mark of the end. -/
def slices (text : List Char) (tokens : Array Token) : List (List Char) :=
  tokens.toList.dropLast.map (slice text)

/-- What the tokens of a script are, wherever they stand. -/
def scanKinds (text : List Char) : Except SyntaxError (List TokenKind) :=
  (scan text).map fun tokens => tokens.toList.map (·.kind)

/-- The text is that of a token in front of the end. -/
def Spells (cs : List Char) (kind : TokenKind) : Prop :=
  ∃ c word, cs = c :: word ∧ scanPiece c word = .token kind word.length

theorem spells_of_scanPiece {c : Char} {word rest : List Char} {kind : TokenKind}
    (h : scanPiece c (word ++ rest) = .token kind word.length)
    : Spells (c :: word) kind :=
  ⟨c, word, rfl, by simpa using scanPiece_append h (.inr (show Parts [] from nofun))⟩

/-- A token is read in front of all that is no part of it. -/
theorem Spells.scanPiece {c : Char} {word : List Char} {kind : TokenKind} (h : Spells (c :: word) kind)
    : ∀ rest, Parts rest → Token.scanPiece c (word ++ rest) = .token kind word.length := by
  obtain ⟨c, word, ⟨⟩, hpiece⟩ := h
  have hpiece : Token.scanPiece c (word ++ []) = .token kind word.length := by simpa using hpiece
  exact fun rest hrest => scanPiece_append hpiece (.inr hrest)

/-- No token begins like the line that the first line of a script may be. -/
theorem Spells.ne_hash {cs : List Char} {kind : TokenKind} (h : Spells cs kind) : cs.head? ≠ some '#' := by
  obtain ⟨c, word, rfl, hpiece⟩ := h
  rintro ⟨⟩
  have hblank : Text.isBlank '#' = false := by decide
  have hname : isNameStart '#' = false := by decide
  simp [Token.scanPiece, startsNumber, hblank, hname, scanSymbol, scanSymbol.scanSingle] at hpiece

namespace Lexes

variable {p q : Cursor} {cs rest : List Char} {tokens : List Token}

theorem spells {before text : List Char} (h : Lexes p cs tokens q rest) (hp : p = Cursor.after {} before)
    (htext : text = before ++ cs)
    : ∀ t ∈ tokens, Spells (slice text t) t.kind := by
  induction h generalizing before with
  | nil => exact nofun
  | @cons p q gap word cs rest c kind tokens _ hfirst _ ih =>
    subst hp
    have hoffset : (Cursor.after {} (before ++ gap)).offset = (before ++ gap).length := by
      simp [Cursor.offset_after]
    rintro t (_ | ⟨_, ht⟩)
    . have hslice : slice text ⟨kind, ((Cursor.after {} before).after gap).span (word.length + 1)⟩ =
          c :: word := by
        have hsplit : text = (before ++ gap) ++ ((c :: word) ++ cs) := by simp [htext]
        rw [← Cursor.after_append, slice, Location.endOffset]
        simp only [Cursor.span, hoffset]
        rw [hsplit, List.extract_eq_take_drop, List.drop_left, Nat.add_sub_cancel_left,
          ← List.length_cons, List.take_left]
      rw [hslice]
      exact spells_of_scanPiece hfirst
    . exact ih (Cursor.after_append ..).symm (by simp [htext]) t ht

/-- A space in front of the first token is skipped. -/
theorem space {t : Token} (h : Lexes (p.after [' ']) cs (t :: tokens) q rest)
    : Lexes p (' ' :: cs) (t :: tokens) q rest := by
  cases h with
  | @cons _ _ gap word cs _ c kind _ hskipped hfirst hothers =>
    rw [← Cursor.after_append] at hothers ⊢
    have hgap : Gap ([' '] ++ gap) (c :: (word ++ cs)) := .cons (.blank (by decide)) hskipped
    exact .cons hgap hfirst hothers

end Lexes

/-- Texts of tokens with spaces between them have these tokens. -/
theorem lexes_intercalate {words : List (List Char)} {kinds : List TokenKind} (h : List.Forall₂ Spells words kinds)
    (p : Cursor)
    : ∃ tokens q, Lexes p ([' '].intercalate words) tokens q [] ∧ tokens.map (·.kind) = kinds := by
  induction h generalizing p with
  | nil => exact ⟨[], p, .nil, rfl⟩
  | @cons cs kind words kinds hfirst hothers ih =>
    obtain ⟨c, word, rfl, -⟩ := id hfirst
    have hpiece := hfirst.scanPiece
    cases hothers with
    | nil =>
      have hlexes : Lexes p ([] ++ c :: (word ++ [])) _ _ [] := .cons .nil (hpiece [] nofun) .nil
      exact ⟨_, _, by simpa using hlexes, rfl⟩
    | @cons cs' kind' words kinds hsecond hothers =>
      obtain ⟨tokens, q, hlexes, hkinds⟩ := ih ((p.after (c :: word)).after [' '])
      cases tokens with
      | nil => cases hkinds
      | cons t tokens =>
        refine ⟨⟨kind, p.span (word.length + 1)⟩ :: t :: tokens, q, ?_, congrArg (kind :: ·) hkinds⟩
        rw [List.intercalate_cons_cons, List.append_assoc, List.singleton_append, List.cons_append]
        exact .cons .nil (hpiece _ fun d hd => .inr (Option.some.inj hd).symm) hlexes.space

theorem scanKinds_intercalate {words : List (List Char)} {kinds : List TokenKind}
    (h : List.Forall₂ Spells words kinds)
    : scanKinds ([' '].intercalate words) = .ok (kinds ++ [.endOfInput]) := by
  obtain ⟨tokens, q, hlexes, rfl⟩ := lexes_intercalate h {}
  have hshebang : shebangLength ([' '].intercalate words) = 0 := by
    refine if_neg fun htake => ?_
    cases words with
    | nil => cases htake
    | cons cs words =>
      obtain ⟨kind, kinds', hfirst, -⟩ := List.forall₂_cons_left_iff.1 h
      obtain ⟨c, word, rfl, -⟩ := id hfirst
      refine hfirst.ne_hash ?_
      cases words <;> simp_all
  rw [scanKinds, scan_of_lexes hlexes hshebang]
  simp [Except.map]

/-- The tokens of a script are those of their texts, and the mark of the end. -/
theorem spells_of_scan {text : List Char} {tokens : Array Token} (h : scan text = .ok tokens)
    : (∀ t ∈ tokens.toList.dropLast, Spells (slice text t) t.kind) ∧
      tokens.toList.map (·.kind) = tokens.toList.dropLast.map (·.kind) ++ [.endOfInput] := by
  obtain ⟨result, hresult, hscan⟩ := scan_result text
  rw [h] at hscan
  cases hresult with
  | error => cases hscan
  | ok hreaches =>
    cases hscan
    obtain ⟨hlexed, -⟩ := hreaches
    have hspells := hlexed.spells rfl (List.take_append_drop (shebangLength text) text).symm
    simpa using hspells

/-- A text is that of a token exactly if it is the only one of the text. -/
theorem spells_iff_scan {cs : List Char} {kind : TokenKind}
    : Spells cs kind ↔
      ∃ last, scan cs = .ok #[⟨kind, ⟨1, 1, 0, cs.length⟩⟩, ⟨.endOfInput, last⟩] := by
  constructor
  . intro h
    have hhash := h.ne_hash
    obtain ⟨c, word, rfl, hpiece⟩ := h
    have hlexes : Lexes {} ([] ++ c :: (word ++ [])) [⟨kind, ⟨1, 1, 0, word.length + 1⟩⟩] _ [] :=
      .cons .nil (by simpa using hpiece) .nil
    have hshebang : shebangLength ([] ++ c :: (word ++ [])) = 0 := by
      refine if_neg fun htake => hhash ?_
      simp_all
    have hscan := scan_of_lexes hlexes hshebang
    rw [List.nil_append, List.append_nil] at hscan
    exact ⟨_, hscan⟩
  . rintro ⟨last, h⟩
    have hspells := (spells_of_scan h).1 ⟨kind, ⟨1, 1, 0, cs.length⟩⟩ (by simp)
    have hslice : slice cs ⟨kind, ⟨1, 1, 0, cs.length⟩⟩ = cs := by
      simp [slice, Location.endOffset]
    rwa [hslice] at hspells

theorem scanKinds_slices {text : List Char} {tokens : Array Token} (h : scan text = .ok tokens)
    : scanKinds ([' '].intercalate (slices text tokens)) = .ok (tokens.toList.map (·.kind)) := by
  obtain ⟨hspells, hkinds⟩ := spells_of_scan h
  rw [hkinds, slices]
  refine scanKinds_intercalate ?_
  rw [List.forall₂_map_left_iff, List.forall₂_map_right_iff, List.forall₂_same]
  exact hspells

/--
Each token of a script is the only one of its own text, the texts of the tokens with single spaces between
them have the same tokens, and so has every script whose tokens have these texts.
-/
theorem scan_slices {text : List Char} {tokens : Array Token} (h : scan text = .ok tokens)
    : (∀ t ∈ tokens.toList.dropLast, scanKinds (slice text t) = .ok [t.kind, .endOfInput]) ∧
      scanKinds ([' '].intercalate (slices text tokens)) = .ok (tokens.toList.map (·.kind)) ∧
      ∀ text' tokens', scan text' = .ok tokens' → slices text' tokens' = slices text tokens →
        tokens'.toList.map (·.kind) = tokens.toList.map (·.kind) := by
  refine ⟨fun t ht => ?_, scanKinds_slices h, fun text' tokens' h' hslices => ?_⟩
  . have hspells := (spells_of_scan h).1 t ht
    simpa using scanKinds_intercalate (.cons hspells .nil)
  . have hkinds := scanKinds_slices h'
    rw [hslices, scanKinds_slices h] at hkinds
    exact (Except.ok.inj hkinds).symm

/-- A script whose division signs would begin a comment if they stood together. -/
def divisionScript : List Char :=
  "x/ /y/*z*/-.5".toList

theorem scan_slices_divisions
    : let tokens : Array Token := #[
        ⟨.name "x", ⟨1, 1, 0, 1⟩⟩, ⟨.symbol .slash, ⟨1, 2, 1, 1⟩⟩, ⟨.symbol .slash, ⟨1, 4, 3, 1⟩⟩,
        ⟨.name "y", ⟨1, 5, 4, 1⟩⟩, ⟨.symbol .minus, ⟨1, 11, 10, 1⟩⟩,
        ⟨.number ⟨0x3fe0000000000000⟩, ⟨1, 12, 11, 2⟩⟩, ⟨.endOfInput, ⟨1, 14, 13, 0⟩⟩]
      scan divisionScript = .ok tokens ∧
      scanKinds "x / / y - .5".toList = .ok (tokens.toList.map (·.kind)) := by
  intro tokens
  have hscan : scan divisionScript = .ok tokens := by decide +kernel
  have hslices : slices divisionScript tokens =
      ["x".toList, "/".toList, "/".toList, "y".toList, "-".toList, ".5".toList] := by decide +kernel
  have hjoined := (scan_slices hscan).2.1
  rw [hslices] at hjoined
  exact ⟨hscan, hjoined⟩

end ScriptHost.Token
