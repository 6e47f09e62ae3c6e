import Mathlib.Data.Finset.Card
import Mathlib.Data.Finset.Image
import Mathlib.Logic.Relation
import ScriptHost.Proofs.Session.Reachable

/-!
This module contains when the text of a value has an end. The text of an object asks for the texts of other
values. Arrays ask for new arrays only, and not below too many others, but an error asks for its message
in any case: the text has an end unless it asks for an error that asks, by messages alone, for itself.
-/

namespace ScriptHost

theorem List.isSome_mapM {α β : Type} {f : α → Option β} {xs : List α}
    : (xs.mapM f).isSome ↔ ∀ x ∈ xs, (f x).isSome := by
  induction xs with
  | nil => simp
  | cons x xs ih =>
    rw [List.mapM_cons, List.forall_mem_cons, ← ih]
    cases f x with
    | none => simp
    | some y => cases xs.mapM f <;> simp

namespace DisplayContext

variable {c : DisplayContext} {v w : Value} {p q : List ObjectId × Value} {n m : Nat}

/-- An error shows a message. -/
def Quotes (c : DisplayContext) (v w : Value) : Prop :=
  ∃ id errorClass, v = .object id ∧ c.heap.content id = .error errorClass ∧
    c.heap.property? id "message" = some w

/-- A text inside some arrays, the innermost one first, needs another text inside the same or one more. -/
inductive Asks (c : DisplayContext) : List ObjectId × Value → List ObjectId × Value → Prop where
  | element {visiting : List ObjectId} {id : ObjectId} {elements : Array Value} {v : Value}
      (harray : c.heap.content id = .array elements) (hnew : id ∉ visiting)
      (hdepth : visiting.length < c.maxDepth) (hv : v ∈ elements) (hnullish : v.isNullish = false)
      : Asks c (visiting, .object id) (id :: visiting, v)
  | message {visiting : List ObjectId} {v w : Value} (hquotes : c.Quotes v w)
      : Asks c (visiting, v) (visiting, w)

abbrev Needs (c : DisplayContext) : List ObjectId × Value → List ObjectId × Value → Prop :=
  Relation.ReflTransGen c.Asks

/-- The text of a value has no end, as it needs that of an error which shows itself. -/
def Endless (c : DisplayContext) (v : Value) : Prop :=
  ∃ visiting w, c.Needs ([], v) (visiting, w) ∧ Relation.TransGen c.Quotes w w

/-- There is a text if objects may stand inside each other `n` deep. -/
def Shows (c : DisplayContext) (n : Nat) (p : List ObjectId × Value) : Prop :=
  (c.display? p.1 p.2 n).isSome

theorem asks_array {visiting : List ObjectId} {id : ObjectId} {elements : Array Value}
    (harray : c.heap.content id = .array elements)
    : c.Asks (visiting, .object id) q
        ↔ (id ∉ visiting ∧ visiting.length < c.maxDepth) ∧
          ∃ v ∈ elements, v.isNullish = false ∧ q = (id :: visiting, v) := by
  constructor
  . intro hq
    cases hq with
    | element harray' hnew hdepth hv hnullish =>
      rw [harray] at harray'
      cases harray'
      exact ⟨⟨hnew, hdepth⟩, _, hv, hnullish, rfl⟩
    | message hquotes =>
      obtain ⟨_, errorClass, heq, herror, -⟩ := hquotes
      cases heq
      rw [harray] at herror
      cases herror
  . rintro ⟨⟨hnew, hdepth⟩, v, hv, hnullish, rfl⟩
    exact .element harray hnew hdepth hv hnullish

theorem asks_error {visiting : List ObjectId} {id : ObjectId} {errorClass : ErrorClass}
    (herror : c.heap.content id = .error errorClass)
    : c.Asks (visiting, .object id) q
        ↔ ∃ w, c.heap.property? id "message" = some w ∧ q = (visiting, w) := by
  constructor
  . intro hq
    cases hq with
    | element harray =>
      rw [herror] at harray
      cases harray
    | message hquotes =>
      obtain ⟨_, _, heq, -, hmessage⟩ := hquotes
      cases heq
      exact ⟨_, hmessage, rfl⟩
  . rintro ⟨w, hmessage, rfl⟩
    exact .message ⟨id, errorClass, rfl, herror, hmessage⟩

theorem object_of_asks (hq : c.Asks p q)
    : ∃ id, p.2 = .object id ∧
        ((∃ elements, c.heap.content id = .array elements) ∨
          ∃ errorClass, c.heap.content id = .error errorClass) := by
  cases hq with
  | element harray => exact ⟨_, rfl, Or.inl ⟨_, harray⟩⟩
  | message hquotes =>
    obtain ⟨id, errorClass, rfl, herror, -⟩ := hquotes
    exact ⟨id, rfl, Or.inr ⟨errorClass, herror⟩⟩

theorem display?_array {visiting : List ObjectId} {id : ObjectId} {elements : Array Value}
    (harray : c.heap.content id = .array elements)
    : c.display? visiting (.object id) (n + 1)
        =
      if visiting.contains id || c.maxDepth ≤ visiting.length then some ""
      else
        (elements.toList.mapM fun v : Value =>
          if v.isNullish then some "" else c.display? (id :: visiting) v n).map ",".intercalate := by
  rw [display?.eq_2]
  simp only [harray]
  rw [Option.map_eq_bind]
  rfl

theorem display?_error {visiting : List ObjectId} {id : ObjectId} {errorClass : ErrorClass}
    (herror : c.heap.content id = .error errorClass)
    : c.display? visiting (.object id) (n + 1)
        =
      match c.heap.property? id "message" with
      | some w => (c.display? visiting w n).map errorClass.headline
      | none => some (errorClass.headline "") := by
  rw [display?.eq_2]
  simp only [herror]
  cases c.heap.property? id "message" with
  | none => rfl
  | some w =>
    cases hw : c.display? visiting w n <;> simp [hw]

theorem shows_array {visiting : List ObjectId} {id : ObjectId} {elements : Array Value}
    (harray : c.heap.content id = .array elements)
    : c.Shows (n + 1) (visiting, .object id)
        ↔ ∀ q, c.Asks (visiting, .object id) q → c.Shows n q := by
  simp only [asks_array harray]
  unfold Shows
  rw [display?_array harray]
  by_cases hguard : id ∉ visiting ∧ visiting.length < c.maxDepth
  . have hgo : ¬ (visiting.contains id || decide (c.maxDepth ≤ visiting.length)) = true := by
      simpa using hguard
    rw [if_neg hgo, Option.isSome_map, List.isSome_mapM]
    constructor
    . rintro hall q ⟨-, v, hv, hnullish, rfl⟩
      simpa [hnullish] using hall v (Array.mem_def.1 hv)
    . intro hall v hv
      cases hnullish : v.isNullish with
      | true => simp
      | false => simpa using hall _ ⟨hguard, v, Array.mem_def.2 hv, hnullish, rfl⟩
  . have hstop : (visiting.contains id || decide (c.maxDepth ≤ visiting.length)) = true := by
      rw [Classical.not_and_iff_not_or_not, not_not, Nat.not_lt] at hguard
      simpa using hguard
    rw [if_pos hstop]
    exact iff_of_true rfl fun q hq => absurd hq.1 hguard

theorem shows_error {visiting : List ObjectId} {id : ObjectId} {errorClass : ErrorClass}
    (herror : c.heap.content id = .error errorClass)
    : c.Shows (n + 1) (visiting, .object id)
        ↔ ∀ q, c.Asks (visiting, .object id) q → c.Shows n q := by
  simp only [asks_error herror]
  unfold Shows
  rw [display?_error herror]
  cases c.heap.property? id "message" with
  | none => simp
  | some w => simp

theorem shows_of_forall_not_asks (hasks : ∀ q, ¬ c.Asks p q) : c.Shows (n + 1) p := by
  obtain ⟨visiting, v⟩ := p
  cases v with
  | object id =>
    cases hcontent : c.heap.content id with
    | array elements => exact (shows_array hcontent).2 fun q hq => absurd hq (hasks q)
    | error errorClass => exact (shows_error hcontent).2 fun q hq => absurd hq (hasks q)
    | _ => simp [Shows, display?.eq_2, hcontent]
  | _ => rfl

/-- A text needs the texts that it asks for, one level deeper. -/
theorem shows_succ : c.Shows (n + 1) p ↔ ∀ q, c.Asks p q → c.Shows n q := by
  by_cases hasks : ∃ q, c.Asks p q
  . obtain ⟨q, hq⟩ := hasks
    obtain ⟨visiting, v⟩ := p
    obtain ⟨id, rfl, ⟨elements, harray⟩ | ⟨errorClass, herror⟩⟩ := object_of_asks hq
    . exact shows_array harray
    . exact shows_error herror
  . rw [not_exists] at hasks
    exact iff_of_true (shows_of_forall_not_asks hasks) fun q hq => absurd hq (hasks q)

theorem Shows.mono (hp : c.Shows n p) (hnm : n ≤ m) : c.Shows m p := by
  induction m generalizing n p with
  | zero =>
    cases Nat.le_zero.1 hnm
    exact hp
  | succ m ih =>
    cases n with
    | zero => cases hp
    | succ n =>
      rw [shows_succ] at hp ⊢
      exact fun q hq => ih (hp q hq) (Nat.le_of_succ_le_succ hnm)

theorem Shows.needs (hp : c.Shows n p) (hq : c.Needs p q) : c.Shows n q := by
  induction hq with
  | refl => exact hp
  | tail _ hq ih =>
    cases n with
    | zero => cases ih
    | succ n => exact (shows_succ.1 ih _ hq).mono (Nat.le_succ n)

/-- A text that needs itself would have to be there one level deeper already, at any depth. -/
theorem not_shows_of_asks_needs (hq : c.Asks p q) (hp : c.Needs q p)
    : ¬ c.Shows n p := by
  induction n with
  | zero => exact Bool.noConfusion
  | succ n ih =>
    intro hshows
    exact ih ((shows_succ.1 hshows q hq).needs hp)

theorem needs_of_quotes {visiting : List ObjectId} (hvw : Relation.ReflTransGen c.Quotes v w)
    : c.Needs (visiting, v) (visiting, w) :=
  hvw.lift (fun v => (visiting, v)) fun _ _ hquotes => .message hquotes

theorem Endless.not_shows (he : c.Endless v) : ¬ c.Shows n ([], v) := by
  obtain ⟨visiting, w, hneeds, hcycle⟩ := he
  obtain ⟨u, hquotes, hrest⟩ := Relation.TransGen.head'_iff.1 hcycle
  intro hshows
  exact not_shows_of_asks_needs (.message hquotes) (needs_of_quotes hrest) (hshows.needs hneeds)

/-- The chain of messages from a value ends after `k` of them at most. -/
def Settles (c : DisplayContext) : Nat → Value → Prop
  | 0, v => ∀ w, ¬ c.Quotes v w
  | k + 1, v => ∀ w, c.Quotes v w → c.Settles k w

theorem shows_of_settles {visiting : List ObjectId} {j k : Nat} (hv : c.Settles j v) (hjk : j ≤ k)
    (hneeds : ∀ visiting' w, c.Needs (visiting, v) (visiting', w) → c.Settles k w)
    (hn : (c.maxDepth - visiting.length) * (k + 1) + j < n)
    : c.Shows n (visiting, v) := by
  induction n generalizing visiting v j with
  | zero => cases hn
  | succ n ih =>
    rw [shows_succ]
    intro q hq
    have hneeds' : ∀ visiting' w, c.Needs q (visiting', w) → c.Settles k w :=
      fun visiting' w hw => hneeds visiting' w (.head hq hw)
    cases hq with
    | @element _ id elements v harray hnew hdepth hv hnullish =>
      -- one array more, and chains of messages may start again
      apply ih (hneeds' _ _ .refl) (Nat.le_refl k) hneeds'
      have hless : c.maxDepth - visiting.length = c.maxDepth - (id :: visiting).length + 1 := by
        rw [List.length_cons]
        omega
      rw [hless, Nat.succ_mul] at hn
      omega
    | message hquotes =>
      cases j with
      | zero => exact absurd hquotes (hv _)
      | succ j => exact ih (hv _ hquotes) (Nat.le_of_succ_le hjk) hneeds' (by omega)

/-- The messages of all errors. -/
def messages (c : DisplayContext) : Finset Value :=
  ((List.range c.heap.objects.size).filterMap fun i => c.heap.property? ⟨i⟩ "message").toFinset

theorem card_messages_le (c : DisplayContext) : c.messages.card ≤ c.heap.objects.size := by
  have hlength := List.length_filterMap_le (fun i => c.heap.property? ⟨i⟩ "message")
    (List.range c.heap.objects.size)
  rw [List.length_range] at hlength
  exact (List.toFinset_card_le _).trans hlength

theorem mem_messages_of_quotes (hquotes : c.Quotes v w) : w ∈ c.messages := by
  obtain ⟨id, errorClass, -, herror, hmessage⟩ := hquotes
  have hid : c.heap.Has id := Heap.has_of_content herror nofun
  exact List.mem_toFinset.2 (List.mem_filterMap.2 ⟨id.index, List.mem_range.2 hid, hmessage⟩)

open Classical in
/-- The messages that the chain of messages from a value consists of. -/
noncomputable def chain (c : DisplayContext) (v : Value) : Finset Value :=
  c.messages.filter (Relation.TransGen c.Quotes v)

theorem mem_chain : w ∈ c.chain v ↔ w ∈ c.messages ∧ Relation.TransGen c.Quotes v w := by
  simp only [chain, Finset.mem_filter]

theorem card_chain_le (c : DisplayContext) (v : Value)
    : (c.chain v).card ≤ c.heap.objects.size := by
  have hsub : c.chain v ⊆ c.messages := fun _ hw => (mem_chain.1 hw).1
  exact (Finset.card_le_card hsub).trans c.card_messages_le

theorem card_chain_lt (hquotes : c.Quotes v w) (hcycle : ¬ Relation.TransGen c.Quotes w w)
    : (c.chain w).card < (c.chain v).card := by
  apply Finset.card_lt_card
  refine ⟨?_, ?_⟩
  . intro u hu
    obtain ⟨hmem, hwu⟩ := mem_chain.1 hu
    exact mem_chain.2 ⟨hmem, .head hquotes hwu⟩
  . intro hsub
    have hw : w ∈ c.chain v := mem_chain.2 ⟨mem_messages_of_quotes hquotes, .single hquotes⟩
    exact hcycle (mem_chain.1 (hsub hw)).2

theorem settles_of_not_cycle {k : Nat}
    (hcycle : ∀ w, Relation.ReflTransGen c.Quotes v w → ¬ Relation.TransGen c.Quotes w w)
    (hk : (c.chain v).card ≤ k)
    : c.Settles k v := by
  induction k generalizing v with
  | zero =>
    intro w hquotes
    have := card_chain_lt hquotes (hcycle w (.single hquotes))
    omega
  | succ k ih =>
    intro w hquotes
    have := card_chain_lt hquotes (hcycle w (.single hquotes))
    exact ih (fun u hu => hcycle u (.head hquotes hu)) (by omega)

theorem settles_of_not_endless {visiting : List ObjectId} (he : ¬ c.Endless v)
    (hneeds : c.Needs ([], v) (visiting, w))
    : c.Settles c.heap.objects.size w := by
  apply settles_of_not_cycle
  . intro u hu hcycle
    exact he ⟨visiting, u, hneeds.trans (needs_of_quotes hu), hcycle⟩
  . exact c.card_chain_le w

/-- The chain of messages from a value is no longer than the levels that its text needs. -/
theorem Shows.settles {visiting : List ObjectId} (hv : c.Shows (n + 1) (visiting, v))
    : c.Settles n v := by
  induction n generalizing v with
  | zero =>
    intro w hquotes
    exact Bool.noConfusion (shows_succ.1 hv _ (.message hquotes))
  | succ n ih => exact fun w hquotes => ih (shows_succ.1 hv _ (.message hquotes))

end DisplayContext

namespace Session

variable {s : Session} {config : Config} {sources : Sources} {fuel : Nat} {v : Value}

theorem display_eq (v : Value) (env : Env) (s : Session)
    : Run.display v env s
        =
      match (s.displayContext env.config).display? [] v env.fuel with
      | some text => .done text s
      | none => .stopped .outOfFuel := by
  change (match (s.displayContext env.config).display? [] v env.fuel with
    | some text => (return text : Run String)
    | none => Run.stop .outOfFuel) env s = _
  cases (s.displayContext env.config).display? [] v env.fuel <;> rfl

theorem display_eq_done_iff
    : (∃ text, Run.display v ⟨config, sources, fuel⟩ s = .done text s)
        ↔ (s.displayContext config).Shows fuel ([], v) := by
  rw [display_eq, DisplayContext.Shows]
  cases (s.displayContext config).display? [] v fuel <;> simp

/--
The text of a value has an end unless it needs that of an error which shows itself. It then takes levels
by the limit on the depth of expressions and by the longest chain of messages, which has no other limit
than the number of objects.
-/
theorem display_done_iff (s : Session) (config : Config) (sources : Sources) (v : Value)
    : ((∃ fuel text, Run.display v ⟨config, sources, fuel⟩ s = .done text s)
          ↔ ¬ (s.displayContext config).Endless v)
        ∧ (∀ k, (∀ visiting w, (s.displayContext config).Needs ([], v) (visiting, w) →
              (s.displayContext config).Settles k w) →
            ∀ fuel, (config.maxExpressionDepth + 1) * (k + 1) ≤ fuel →
              ∃ text, Run.display v ⟨config, sources, fuel⟩ s = .done text s)
        ∧ (¬ (s.displayContext config).Endless v →
            ∀ visiting w, (s.displayContext config).Needs ([], v) (visiting, w) →
              (s.displayContext config).Settles s.heap.objects.size w)
        ∧ ∀ k text, Run.display v ⟨config, sources, k + 1⟩ s = .done text s →
            (s.displayContext config).Settles k v := by
  have hbound : ∀ k, (∀ visiting w, (s.displayContext config).Needs ([], v) (visiting, w) →
      (s.displayContext config).Settles k w) →
      ∀ fuel, (config.maxExpressionDepth + 1) * (k + 1) ≤ fuel →
        (s.displayContext config).Shows fuel ([], v) := by
    intro k hsettles fuel hfuel
    apply DisplayContext.shows_of_settles (hsettles _ _ .refl) (Nat.le_refl k) hsettles
    change config.maxExpressionDepth * (k + 1) + k < fuel
    rw [Nat.succ_mul] at hfuel
    omega
  have hsettles : ¬ (s.displayContext config).Endless v →
      ∀ visiting w, (s.displayContext config).Needs ([], v) (visiting, w) →
        (s.displayContext config).Settles s.heap.objects.size w :=
    fun hendless visiting w hneeds => DisplayContext.settles_of_not_endless hendless hneeds
  simp only [display_eq_done_iff]
  refine ⟨⟨?_, ?_⟩, hbound, hsettles, ?_⟩
  . rintro ⟨fuel, hshows⟩ hendless
    exact hendless.not_shows hshows
  . intro hendless
    exact ⟨_, hbound _ (hsettles hendless) _ (Nat.le_refl _)⟩
  . intro k text hdone
    exact (display_eq_done_iff.1 ⟨text, hdone⟩).settles

/-- A session after a script that makes an error its own message, and that error. -/
def mirrored? : Option (Value × Session) :=
  match Session.start {} with
  | .ok s =>
    match Run.script "var e = Error('x'); e.message = e;" "a.js" none aloneEnv s with
    | .done v s => some (v, s)
    | _ => none
  | .error _ => none

theorem mirrored_spec
    : ∃ p, mirrored? = some p ∧ p.1 = .object ⟨12⟩
        ∧ (p.2.heap.content ⟨12⟩).family = .error
        ∧ p.2.heap.property? ⟨12⟩ "message" = some (.object ⟨12⟩) := by
  decide +kernel

/-- An error can show itself: the text of its message then has no end, whatever the limits are. -/
theorem display_mirrored
    : ∃ s s' v env, s.Reachable
        ∧ Run.script "var e = Error('x'); e.message = e;" "a.js" none env s = .done v s'
        ∧ ∀ config sources fuel, Run.display v ⟨config, sources, fuel⟩ s' = .stopped .outOfFuel := by
  obtain ⟨⟨v, s'⟩, hmirrored, hv, hfamily, hmessage⟩ := mirrored_spec
  dsimp only at hv hfamily hmessage
  unfold mirrored? at hmirrored
  split at hmirrored
  . next s hstart =>
    split at hmirrored
    . next v' s₁ hscript =>
      cases hmirrored
      refine ⟨s, s', v, aloneEnv, .start hstart, hscript, ?_⟩
      intro config sources fuel
      have hquotes : (s'.displayContext config).Quotes v v := by
        rw [hv]
        cases hcontent : s'.heap.content ⟨12⟩ with
        | error errorClass => exact ⟨_, errorClass, rfl, hcontent, hmessage⟩
        | _ =>
          rw [hcontent] at hfamily
          cases hfamily
      have hendless : (s'.displayContext config).Endless v :=
        ⟨[], v, .refl, .single hquotes⟩
      have hnone : (s'.displayContext config).display? [] v fuel = none :=
        Option.not_isSome_iff_eq_none.1 hendless.not_shows
      rw [display_eq, hnone]
    . cases hmirrored
  . cases hmirrored

end Session
end ScriptHost
