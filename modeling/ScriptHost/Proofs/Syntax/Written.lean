import ScriptHost.Proofs.Syntax.KeepsStmt
import Mathlib.Data.List.Sort

/-!
This module contains that it makes no difference whether semicolons are written or left out: with all that are
missing inserted, a script is still read as the same statements.
-/

namespace ScriptHost

open Grammar

namespace TokenStream

variable {s t : TokenStream} {places : Nat → Bool} {loc : Nat → Location} {i k k' n m : Nat} {token : Token}
  {rest : List Token} {ws : List Nat}

theorem get_of_drop (h : s.tokens.toList.drop i = token :: rest)
    : i < s.tokens.size ∧ s.get i = token ∧ s.tokens.toList.drop (i + 1) = rest := by
  have hi : i < s.tokens.toList.length := by
    apply Nat.lt_of_not_le
    intro hle
    rw [List.drop_eq_nil_of_le hle] at h
    cases h
  rw [List.drop_eq_getElem_cons hi] at h
  obtain ⟨hget, hrest⟩ := List.cons.inj h
  exact ⟨hi, (get_eq_getElem hi).trans hget, hrest⟩

/-- The next position, and what the copy is from there on. -/
theorem copies_place {l : Location} (hn : n ≤ t.tokens.size)
    (ht : t.tokens.toList.drop n = if places k then ⟨.symbol .semicolon, l⟩ :: rest else rest)
    (h : ∀ n, n ≤ t.tokens.size → t.tokens.toList.drop n = rest → s.Copies t k n ws k' m)
    : s.Copies t k n (if places k then k :: ws else ws) k' m := by
  by_cases hplace : places k = true
  . rw [if_pos hplace] at ht ⊢
    obtain ⟨hlt, htoken, hrest⟩ := get_of_drop ht
    exact .semicolon hlt (by rw [htoken]) (h (n + 1) hlt hrest)
  . rw [if_neg hplace] at ht ⊢
    exact h n hn ht

theorem copies_withSemicolons (hn : n ≤ t.tokens.size) (hs : s.tokens.toList.drop k = rest)
    (ht : t.tokens.toList.drop n = withSemicolons places loc k rest)
    : s.Copies t k n ((List.range' k (rest.length + 1)).filter places) (k + rest.length) t.tokens.size := by
  induction rest generalizing k n with
  | nil =>
    rw [List.length_nil, List.range'_succ, List.filter_cons]
    refine copies_place hn ht fun n hn hrest => ?_
    obtain rfl : n = t.tokens.size := Nat.le_antisymm hn (by simpa using hrest)
    exact .nil
  | cons token rest ih =>
    obtain ⟨-, htoken, hs⟩ := get_of_drop hs
    rw [List.length_cons, List.range'_succ, List.filter_cons, show k + (rest.length + 1) = k + 1 + rest.length by omega]
    refine copies_place hn ht fun n _ hrest => ?_
    obtain ⟨hlt, htoken', hrest⟩ := get_of_drop hrest
    exact .token hlt (htoken'.trans htoken.symm) (ih hlt hs hrest)

/-- The copy of the tokens in front of a position, behind which no semicolon is inserted. -/
theorem copies_front {j : Nat} (ht : t.tokens.toList = withSemicolons places loc 0 s.tokens.toList)
    (hws : ws.Pairwise (· < ·)) (hplaces : ∀ i, places i = true ↔ i ∈ ws) (hle : ∀ w ∈ ws, w ≤ j)
    (hj : j ≤ s.tokens.size)
    : ∃ l, s.Copies t 0 0 ws j l ∧ t.get l = s.get j := by
  have hall : (List.range' 0 (s.tokens.toList.length + 1)).filter places = ws := by
    refine List.Pairwise.eq_of_mem_iff ((List.pairwise_lt_range' 1).filter _) hws fun i => ?_
    rw [List.mem_filter, hplaces, List.mem_range'_1]
    refine and_iff_right_of_imp fun hi => ⟨Nat.zero_le i, ?_⟩
    have := hle i hi
    rw [Array.length_toList]
    omega
  have hcopies := copies_withSemicolons (Nat.zero_le _) (List.drop_zero ..) ((List.drop_zero ..).trans ht)
  rw [hall, ← List.append_nil ws, Array.length_toList, Nat.zero_add] at hcopies
  obtain ⟨l, hleft, hright⟩ := hcopies.split (Nat.zero_le j) hj hle nofun
  refine ⟨l, hleft, ?_⟩
  rcases Nat.lt_or_eq_of_le hj with hlt | rfl
  . exact (hright.head nofun hlt).2.1
  . obtain ⟨rfl, -⟩ := hright.target_eq nofun
    rw [get_of_size_le (Nat.le_refl _), get_of_size_le (Nat.le_refl _)]

end TokenStream

theorem keeps_script (s : TokenStream) [s.KnowsArrows] (P : Known)
    : Keeps s 0 P false fun due => scriptWith (Parser.demand due) := by
  have : Takes 1 (nestedStatement (ofLevelsWith (Parser.demand never) maxNesting) {}) :=
    inferInstanceAs (Takes 1 (nestedStatement (demanding never maxNesting) {}))
  exact .many (fun _ _ => .seen (.atEnd .pure)) fun k P => (keepsAt s maxNesting).nestedStatement k P {}

namespace Grammar

variable {tokens : Array Token} {stmts : List Stmt} {i j : Nat} {ws : List Nat}

/-- What a script leaves out is found at the positions where it is rejected if a semicolon is demanded there. -/
theorem omits_iff_mem {Y : TokenStream → Nat → Parser (List Stmt) → Prop}
    (h : Omits (.ofTokens tokens) 0 false (fun due => scriptWith (Parser.demand due)) stmts j ws Y)
    : omits tokens i = true ↔ i ∈ ws := by
  unfold omits
  by_cases hi : i ∈ ws
  . obtain ⟨e, he⟩ := h.rejects (· == i) ⟨i, hi, beq_self_eq_true i⟩
    simp [he, hi]
  . have haccepts := h.accepts (· == i) fun w hw => beq_false_of_ne fun heq => hi (heq ▸ hw)
    simp [haccepts, hi]

/--
A script is still read as the same statements when semicolons are inserted wherever it leaves them out, whatever
their locations are. No semicolon is missing then.
-/
theorem script_withSemicolons (hok : script.at (.ofTokens tokens) 0 = .ok (stmts, j)) (loc : Nat → Location)
    : let written := (withSemicolons (omits tokens) loc 0 tokens.toList).toArray
      (∃ j', script.at (.ofTokens written) 0 = .ok (stmts, j') ∧
        (scriptWith (Parser.expectSymbol .semicolon)).at (.ofTokens written) 0 = .ok (stmts, j')) ∧
      ∀ i, omits tokens i = true → Parser.semicolon.at (.ofTokens tokens) i = .ok ((), i) := by
  intro written
  have hsource : (scriptWith (Parser.demand never)).at (.ofTokens tokens) 0 = .ok (stmts, j) := by
    rw [demand_never, scriptWith_semicolon]
    exact hok
  obtain ⟨-, hsize, ws, hws⟩ := keeps_script _ (fun _ _ => True) stmts j (Nat.zero_le _) hsource
  obtain ⟨l, hcopies, hend⟩ := TokenStream.copies_front (s := .ofTokens tokens) (t := .ofTokens written) rfl
    hws.sorted (fun i => omits_iff_mem hws) (fun w hw => (hws.bounds w hw).2.1) hsize
  have hwritten : ∀ due, (scriptWith (Parser.demand due)).at (.ofTokens written) 0 = .ok (stmts, l) :=
    fun due => hws.writes _ 0 l hcopies (.inl hend) _ ⟨trivial, due, rfl⟩
  -- A script demands a semicolon nowhere, and the grammar without missing semicolons does everywhere.
  refine ⟨⟨l, ?_, hwritten fun _ => true⟩, fun i hi => ?_⟩
  . have hnever := hwritten never
    rwa [demand_never, scriptWith_semicolon] at hnever
  . obtain ⟨hkind, hmissing⟩ := hws.missing i ((omits_iff_mem hws).1 hi)
    rw [Parser.semicolon_at, if_neg hkind, if_pos hmissing]

/-- The tokens of `x = a => { return }` and of `y` in the next line. -/
def linesTokens : Array Token := #[
  ⟨.name "x", ⟨1, 1, 0, 1⟩⟩, ⟨.symbol .assign, ⟨1, 3, 2, 1⟩⟩, ⟨.name "a", ⟨1, 5, 4, 1⟩⟩,
  ⟨.symbol .arrow, ⟨1, 7, 6, 2⟩⟩, ⟨.symbol .leftBrace, ⟨1, 10, 9, 1⟩⟩, ⟨.keyword .return, ⟨1, 12, 11, 6⟩⟩,
  ⟨.symbol .rightBrace, ⟨1, 19, 18, 1⟩⟩, ⟨.name "y", ⟨2, 1, 20, 1⟩⟩, ⟨.endOfInput, ⟨2, 2, 21, 0⟩⟩]

/-- The same tokens with the semicolons, each of them where the token before it is. -/
def linesWritten : List Token := [
  ⟨.name "x", ⟨1, 1, 0, 1⟩⟩, ⟨.symbol .assign, ⟨1, 3, 2, 1⟩⟩, ⟨.name "a", ⟨1, 5, 4, 1⟩⟩,
  ⟨.symbol .arrow, ⟨1, 7, 6, 2⟩⟩, ⟨.symbol .leftBrace, ⟨1, 10, 9, 1⟩⟩, ⟨.keyword .return, ⟨1, 12, 11, 6⟩⟩,
  ⟨.symbol .semicolon, ⟨1, 12, 11, 6⟩⟩, ⟨.symbol .rightBrace, ⟨1, 19, 18, 1⟩⟩,
  ⟨.symbol .semicolon, ⟨1, 19, 18, 1⟩⟩, ⟨.name "y", ⟨2, 1, 20, 1⟩⟩, ⟨.symbol .semicolon, ⟨2, 1, 20, 1⟩⟩,
  ⟨.endOfInput, ⟨2, 2, 21, 0⟩⟩]

def linesStmts : List Stmt := [
  .expr (.assign (.name "x" ⟨1, 1, 0, 1⟩)
    (.function ⟨none, ["a"], .block [.return none ⟨1, 12, 11, 6⟩], ⟨1, 5, 4, 15⟩⟩) ⟨1, 3, 2, 1⟩) ⟨1, 1, 0, 1⟩,
  .expr (.name "y" ⟨2, 1, 20, 1⟩) ⟨2, 1, 20, 1⟩]

theorem script_withSemicolons_lines
    : script.at (.ofTokens linesTokens) 0 = .ok (linesStmts, 8) ∧
      ∃ j, script.at (.ofTokens linesWritten.toArray) 0 = .ok (linesStmts, j) := by
  have hok : script.at (.ofTokens linesTokens) 0 = .ok (linesStmts, 8) := rfl
  obtain ⟨⟨j, hj, -⟩, -⟩ := script_withSemicolons hok fun i => ((TokenStream.ofTokens linesTokens).get (i - 1)).loc
  have hwritten : withSemicolons (omits linesTokens) (fun i => ((TokenStream.ofTokens linesTokens).get (i - 1)).loc) 0
      linesTokens.toList = linesWritten := by
    decide +kernel
  rw [hwritten] at hj
  exact ⟨hok, j, hj⟩

end Grammar
end ScriptHost
