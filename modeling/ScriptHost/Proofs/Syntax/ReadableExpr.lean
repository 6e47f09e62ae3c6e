import ScriptHost.Proofs.Syntax.Readable

/-!
This module contains that expressions are readable if their parts are, with one theorem for each form.
-/

namespace ScriptHost

open Grammar

theorem Balanced.brackets {ks : List TokenKind} (hks : Balanced ks) : Balanced (brackets ks) :=
  .cons nofun nofun (hks.append (.cons nofun nofun .nil))

theorem Balanced.braces {ks : List TokenKind} (hks : Balanced ks) : Balanced (braces ks) :=
  .cons nofun nofun (hks.append (.cons nofun nofun .nil))

theorem Balanced.single {k : TokenKind} (hleft : k ≠ .symbol .leftParen)
    (hright : k ≠ .symbol .rightParen)
    : Balanced [k] :=
  .cons hleft hright .nil

theorem Balanced.commas {tss : List (List TokenKind)} (htss : ∀ ts ∈ tss, Balanced ts)
    : Balanced (commas tss) := by
  cases tss with
  | nil => exact .nil
  | cons ts tss =>
    refine (htss ts List.mem_cons_self).append ?_
    have hrest : ∀ ts ∈ tss, Balanced ts := fun ts hts => htss ts (List.mem_cons_of_mem _ hts)
    clear htss
    induction tss with
    | nil => exact .nil
    | cons ts tss ih =>
      have hts : Balanced (.symbol .comma :: ts) := .cons nofun nofun (hrest ts List.mem_cons_self)
      refine hts.append ?_
      exact ih fun ts hts => hrest ts (List.mem_cons_of_mem _ hts)

namespace Expr

variable {σ : Style} {e : Expr} {m : Nat} {loc : Location}

namespace Readable

variable (h : e.Readable σ)
include h

theorem balanced_enclosed (m : Nat) : Balanced (enclosed m e (e.print σ)) := by
  unfold enclosed
  split
  . exact h.balanced.parens
  . exact h.balanced

theorem begins_enclosed (m : Nat) : Begins (·.startsExpr) (enclosed m e (e.print σ)) := by
  unfold enclosed
  split
  . exact ⟨_, _, rfl, rfl⟩
  . exact h.begins

theorem plain_enclosed (hm : 9 ≤ m) : Begins (unaryOp? · = none) (enclosed m e (e.print σ)) := by
  unfold enclosed
  split
  . exact ⟨_, _, rfl, rfl⟩
  . next hlevel => exact h.plain (Nat.le_trans hm (Nat.le_of_not_lt hlevel))

theorem noArrow_enclosed (hm : 2 ≤ m) : NoArrow (enclosed m e (e.print σ)) := by
  unfold enclosed
  split
  . rw [← List.append_nil (parens _)]
    exact .parens h.balanced nofun
  . next hlevel => exact h.noArrow (Nat.le_trans hm (Nat.le_of_not_lt hlevel))

end Readable

/-- An expression that the reader of literals and parentheses gets back. -/
theorem leadAt_primary {ts : List TokenKind} {need : Nat}
    (h : ∀ ⦃s : TokenStream⦄ ⦃p : Prop⦄ ⦃n : Nat⦄ ⦃ks : List TokenKind⦄, s.Line → (p → need ≤ n) →
      Reads s p (primary (ofLevels n)) (ts ++ ks) fun e' ks' => e'.unplaced = e.unplaced ∧ ks' = ks)
    : e.LeadAt 11 ts need 0 := by
  intro s p n k ks R hs hk hp hR
  rw [← bind_pure (readerOf (ofLevels n) 11)]
  apply (h hs hp).bind
  rintro e' _ ⟨he', rfl⟩
  exact hR e' he'

/-- An expression that is a single token. -/
theorem readable_literal {k : TokenKind} (hprint : e.print σ = [k]) (hstarts : k.startsExpr)
    (hsymbol : ∀ symbol, k ≠ .symbol symbol) (hunary : unaryOp? k = none) (hlevel : e.level = 11)
    (hlinks : e.links = 0)
    (hliteral : ∀ t : Token, t.kind = k → ∃ e', literal? t = some e' ∧ e'.unplaced = e.unplaced)
    : e.Readable σ where
  balanced := by
    rw [hprint]
    exact .single (hsymbol _) (hsymbol _)
  begins := ⟨k, [], hprint, hstarts⟩
  plain _ := ⟨k, [], hprint, hunary⟩
  noArrow _ := by
    rw [hprint]
    by_cases hname : ∃ name, k = .name name
    . obtain ⟨name, rfl⟩ := hname
      exact .name nofun
    . exact .other (fun name hk => hname ⟨name, hk⟩) (hsymbol _)
  loose hloose := by
    rw [hlevel] at hloose
    contradiction
  tight _ := by
    rw [hprint, hlevel, hlinks]
    apply leadAt_primary
    intro s p n ks hs hp
    unfold primary
    apply Reads.peek
    intro t ht
    obtain ⟨e', hsome, he'⟩ := hliteral t ht
    rw [hsome]
    have hend : k ≠ .endOfInput := by
      rintro rfl
      cases hstarts
    apply Reads.advance hend
    exact .pure ⟨he', rfl⟩

theorem readable_number (value : Double) : (Expr.number value loc).Readable σ := by
  apply readable_literal (k := .number value) rfl rfl nofun rfl rfl rfl
  intro t ht
  refine ⟨.number value t.loc, ?_, rfl⟩
  unfold literal?
  rw [ht]

theorem readable_string (value : String) : (Expr.string value loc).Readable σ := by
  apply readable_literal (k := .string value) rfl rfl nofun rfl rfl rfl
  intro t ht
  refine ⟨.string value t.loc, ?_, rfl⟩
  unfold literal?
  rw [ht]

theorem readable_bool (value : Bool) : (Expr.bool value loc).Readable σ := by
  cases value with
  | true =>
    apply readable_literal (k := .keyword .true) rfl rfl nofun rfl rfl rfl
    intro t ht
    refine ⟨.bool true t.loc, ?_, rfl⟩
    unfold literal?
    rw [ht]
  | false =>
    apply readable_literal (k := .keyword .false) rfl rfl nofun rfl rfl rfl
    intro t ht
    refine ⟨.bool false t.loc, ?_, rfl⟩
    unfold literal?
    rw [ht]

theorem readable_null : (Expr.null loc).Readable σ := by
  apply readable_literal (k := .keyword .null) rfl rfl nofun rfl rfl rfl
  intro t ht
  refine ⟨.null t.loc, ?_, rfl⟩
  unfold literal?
  rw [ht]

theorem readable_undefined : (Expr.undefined loc).Readable σ := by
  apply readable_literal (k := .keyword .undefined) rfl rfl nofun rfl rfl rfl
  intro t ht
  refine ⟨.undefined t.loc, ?_, rfl⟩
  unfold literal?
  rw [ht]

theorem readable_name (name : String) : (Expr.name name loc).Readable σ := by
  apply readable_literal (k := .name name) rfl rfl nofun rfl rfl rfl
  intro t ht
  refine ⟨.name name t.loc, ?_, rfl⟩
  unfold literal?
  rw [ht]

/-! Lists of expressions. -/

theorem printEach_eq_map (σ : Style) (es : List Expr) : Expr.printEach σ es = es.map (Expr.print σ) := by
  induction es with
  | nil => rfl
  | cons e es ih => rw [Expr.printEach, ih, List.map_cons]

theorem unplacedAll_eq_map (es : List Expr) : Expr.unplacedAll es = es.map Expr.unplaced := by
  induction es with
  | nil => rfl
  | cons e es ih => rw [Expr.unplacedAll, ih, List.map_cons]

theorem need_lt_needAll {es : List Expr} (he : e ∈ es) : e.need σ + 1 ≤ Expr.needAll σ es := by
  induction es with
  | nil => cases he
  | cons e' es ih =>
    rw [Expr.needAll]
    rcases List.mem_cons.1 he with rfl | he
    . exact Nat.le_max_left _ _
    . exact Nat.le_trans (ih he) (Nat.le_max_right _ _)

theorem balanced_printEach {es : List Expr} (h : ∀ e ∈ es, e.Readable σ)
    : Balanced (commas (Expr.printEach σ es)) := by
  rw [printEach_eq_map]
  apply Balanced.commas
  intro ts hts
  obtain ⟨e, he, rfl⟩ := List.mem_map.1 hts
  exact (h e he).balanced

theorem stops_zero {k : TokenKind} (hk : k.continues? = none) : k.Stops 0 :=
  stops_of_continues? hk 0

/-- The elements of an array and the arguments of a call. -/
theorem reads_expressions {es : List Expr} (h : ∀ e ∈ es, e.Readable σ) {s : TokenStream} {p : Prop}
    {n : Nat} {close : Symbol} {ks : List TokenKind} (hs : s.Line) (hp : p → Expr.needAll σ es ≤ n)
    (hclose : (TokenKind.symbol close).continues? = none)
    (hstarts : (TokenKind.symbol close).startsExpr = false) (hcomma : close ≠ .comma)
    : Reads s p (Parser.listUntil close (expression (ofLevels n)))
        (commas (Expr.printEach σ es) ++ .symbol close :: ks) fun es' ks' =>
          Expr.unplacedAll es' = Expr.unplacedAll es ∧ ks' = .symbol close :: ks := by
  rw [printEach_eq_map, unplacedAll_eq_map]
  simp only [unplacedAll_eq_map]
  apply Reads.listUntil hcomma
  . intro e he k ks hk
    have hstops : k.Stops 0 := by
      rcases hk with rfl | rfl
      . exact stops_zero rfl
      . exact stops_zero hclose
    exact (h e he).readAt_zero.reads_expression hs hstops
      fun h => Nat.le_trans (need_lt_needAll he) (hp h)
  . intro e he
    obtain ⟨k, ks, hks, hk⟩ := (h e he).begins
    refine ⟨k, ks, hks, ?_⟩
    rintro rfl
    rw [hstarts] at hk
    cases hk

theorem readable_array {elements : List Expr} (h : ∀ e ∈ elements, e.Readable σ)
    : (Expr.array elements loc).Readable σ where
  balanced := (balanced_printEach h).brackets
  begins := ⟨_, _, rfl, rfl⟩
  plain _ := ⟨_, _, rfl, rfl⟩
  noArrow _ := .other nofun nofun
  loose := nofun
  tight _ := by
    apply leadAt_primary
    intro s p n ks hs hp
    rw [Expr.print, brackets_append]
    unfold primary
    apply Reads.peek
    intro t ht
    unfold literal?
    rw [ht]
    dsimp only
    unfold arrayLiteral
    apply Reads.location
    intro start
    apply Reads.expectSymbol
    apply (reads_expressions h hs hp rfl rfl (by decide)).bind
    rintro es _ ⟨hes, rfl⟩
    apply Reads.expectSymbol
    apply Reads.previous
    intro last
    refine .pure ⟨?_, rfl⟩
    rw [Expr.unplaced, Expr.unplaced, hes]

theorem property_printEach_eq_map (σ : Style) (ps : List Property)
    : Property.printEach σ ps
        = ps.map fun q => .string q.key :: .symbol .colon :: q.value.print σ := by
  induction ps with
  | nil => rfl
  | cons q ps ih =>
    cases q
    rw [Property.printEach, ih, List.map_cons]

theorem property_unplacedAll_eq_map (ps : List Property)
    : Property.unplacedAll ps = ps.map fun q => ⟨q.key, q.value.unplaced⟩ := by
  induction ps with
  | nil => rfl
  | cons q ps ih =>
    cases q
    rw [Property.unplacedAll, ih, List.map_cons]

theorem need_lt_property_needAll {ps : List Property} {q : Property} (hq : q ∈ ps)
    : q.value.need σ + 1 ≤ Property.needAll σ ps := by
  induction ps with
  | nil => cases hq
  | cons q' ps ih =>
    cases q'
    rw [Property.needAll]
    rcases List.mem_cons.1 hq with rfl | hq
    . exact Nat.le_max_left _ _
    . exact Nat.le_trans (ih hq) (Nat.le_max_right _ _)

theorem readable_object {properties : List Property} (h : ∀ q ∈ properties, q.value.Readable σ)
    : (Expr.object properties loc).Readable σ where
  balanced := by
    apply Balanced.braces
    rw [property_printEach_eq_map]
    apply Balanced.commas
    intro ts hts
    obtain ⟨q, hq, rfl⟩ := List.mem_map.1 hts
    exact .cons nofun nofun (.cons nofun nofun (h q hq).balanced)
  begins := ⟨_, _, rfl, rfl⟩
  plain _ := ⟨_, _, rfl, rfl⟩
  noArrow _ := .other nofun nofun
  loose := nofun
  tight _ := by
    apply leadAt_primary
    intro s p n ks hs hp
    rw [Expr.print, braces_append]
    unfold primary
    apply Reads.peek
    intro t ht
    unfold literal?
    rw [ht]
    dsimp only
    unfold objectLiteral
    apply Reads.location
    intro start
    apply Reads.expectSymbol
    have hproperties : Reads s p (Parser.listUntil .rightBrace (property (ofLevels n)))
        (commas (Property.printEach σ properties) ++ .symbol .rightBrace :: ks) fun ps ks' =>
          Property.unplacedAll ps = Property.unplacedAll properties ∧ ks' = .symbol .rightBrace :: ks := by
      rw [property_printEach_eq_map, property_unplacedAll_eq_map]
      simp only [property_unplacedAll_eq_map]
      apply Reads.listUntil (by decide)
      . intro q hq k ks hk
        have hstops : k.Stops 0 := by rcases hk with rfl | rfl <;> exact stops_zero rfl
        unfold Grammar.property
        apply Reads.location
        intro loc
        unfold propertyKey
        rw [bind_assoc]
        apply Reads.peek
        intro t ht
        rw [ht]
        dsimp only
        rw [bind_assoc]
        apply Reads.advance (by exact nofun)
        rw [pure_bind]
        dsimp only
        apply Reads.acceptSymbol
        rw [if_pos rfl]
        have hneed : p → q.value.need σ + 1 ≤ n :=
          fun h => Nat.le_trans (need_lt_property_needAll hq) (hp h)
        apply ((h q hq).readAt_zero.reads_expression hs hstops hneed).bind
        rintro value _ ⟨hvalue, rfl⟩
        exact .pure ⟨by rw [hvalue], rfl⟩
      . exact fun q _ => ⟨_, _, rfl, nofun⟩
    apply hproperties.bind
    rintro ps _ ⟨hps, rfl⟩
    apply Reads.expectSymbol
    apply Reads.previous
    intro last
    refine .pure ⟨?_, rfl⟩
    rw [Expr.unplaced, Expr.unplaced, hps]

end Expr
end ScriptHost
