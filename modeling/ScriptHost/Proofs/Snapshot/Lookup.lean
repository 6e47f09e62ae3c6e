import ScriptHost.Proofs.Text.Digits
import ScriptHost.Snapshot.Basic

/-!
This module contains what the lookup of an edge by its kind and name finds. It finds the first edge that
answers to them, and an edge answers to the text of its name. An index answers also to the spellings of
its text with a plus sign, behind which zeros may stand.
-/

namespace ScriptHost

namespace EdgeName

/-- A spelling of an index that is not its text. -/
def IsSigned (n : EdgeName) (text : String) : Prop :=
  ∃ i k, n = .index i ∧ text.toList = '+' :: (List.replicate k '0' ++ (EdgeName.index i).text.toList)

theorem toList_text_index (i : UInt32) : (EdgeName.index i).text.toList = Nat.toDigits 10 i.toNat := by
  have : (EdgeName.index i).text = toString i.toNat := rfl
  rw [this, Nat.toString_eq_repr, Nat.toList_repr]

theorem isCalled_index_iff (i : UInt32) (text : String)
    : (EdgeName.index i).isCalled text
        ↔
      text = (EdgeName.index i).text ∨ (EdgeName.index i).IsSigned text := by
  have hlt : i.toNat < UInt32.size := i.toNat_lt
  have htext : text = (EdgeName.index i).text ↔ text.toList = Nat.toDigits 10 i.toNat := by
    rw [← String.toList_inj, toList_text_index]
  unfold isCalled
  rw [Bool.and_eq_true, beq_iff_eq, Text.readNat?_eq_some_iff, htext]
  simp only [Bool.not_eq_true', ← Bool.not_eq_true, Bool.and_eq_true, decide_eq_true_eq]
  constructor
  . rintro ⟨⟨-, k, h | h⟩, hzero⟩
    . left
      rw [Text.hasLeadingZero_iff h, ne_eq, not_not] at hzero
      simpa [hzero] using h
    . right
      exact ⟨i, k, rfl, by rw [h, toList_text_index]⟩
  . rintro (h | ⟨_, k, hi, h⟩)
    . have h0 : text.toList = List.replicate 0 '0' ++ Nat.toDigits 10 i.toNat := h
      refine ⟨⟨hlt, 0, Or.inl h0⟩, ?_⟩
      rw [Text.hasLeadingZero_iff h0]
      simp
    . injection hi with hi
      subst hi
      rw [toList_text_index] at h
      refine ⟨⟨hlt, k, Or.inr h⟩, ?_⟩
      rw [Text.startsWith_zero_iff, h]
      simp

theorem isCalled_iff (n : EdgeName) (text : String)
    : n.isCalled text ↔ text = n.text ∨ n.IsSigned text := by
  cases n with
  | named name =>
    simp only [isCalled, beq_iff_eq, EdgeName.text, IsSigned, reduceCtorEq, false_and, exists_false,
      or_false]
    exact eq_comm
  | index i => exact isCalled_index_iff i text

theorem IsSigned.ne_text {n : EdgeName} {text : String} (h : n.IsSigned text) : text ≠ n.text := by
  obtain ⟨i, k, rfl, hsigned⟩ := h
  intro htext
  rw [htext, toList_text_index] at hsigned
  exact Text.replicate_append_ne_cons_plus 0 _ _ hsigned

theorem isCalled_exact_iff (n : EdgeName) (text : String)
    : (n.isCalled text ↔ text = n.text) ↔ ¬ n.IsSigned text := by
  rw [isCalled_iff]
  constructor
  . intro h hsigned
    exact hsigned.ne_text (h.1 (Or.inr hsigned))
  . intro hsigned
    simp [hsigned]

end EdgeName

/-- Whether an edge has the kind and answers to the text. -/
def SnapshotEdge.Answers (edge : SnapshotEdge) (kind : EdgeKind) (text : String) : Prop :=
  edge.kind = kind ∧ (text = edge.name.text ∨ edge.name.IsSigned text)

namespace Snapshot

theorem answers_iff (edge : SnapshotEdge) (kind : EdgeKind) (text : String)
    : (edge.kind = kind && edge.name.isCalled text) = true ↔ edge.Answers kind text := by
  rw [Bool.and_eq_true, decide_eq_true_eq, EdgeName.isCalled_iff]
  rfl

theorem find?_eq_some_iff (s : Snapshot) (position : Nat) (kind : EdgeKind) (text : String)
    (target : Nat)
    : s.find? position kind text = some target
        ↔
      ∃ before edge after,
        s.edgesAt position = before ++ edge :: after ∧
        edge.target = target ∧
        edge.Answers kind text ∧
        ∀ e ∈ before, ¬ e.Answers kind text := by
  unfold find?
  simp only [Option.map_eq_some_iff, List.find?_eq_some_iff_append, Bool.not_eq_true', answers_iff,
    ← Bool.not_eq_true]
  constructor
  . rintro ⟨edge, ⟨hedge, before, after, hedges, hbefore⟩, htarget⟩
    exact ⟨before, edge, after, hedges, htarget, hedge, hbefore⟩
  . rintro ⟨before, edge, after, hedges, htarget, hedge, hbefore⟩
    exact ⟨edge, ⟨hedge, before, after, hedges, hbefore⟩, htarget⟩

theorem find?_eq_none_iff (s : Snapshot) (position : Nat) (kind : EdgeKind) (text : String)
    : s.find? position kind text = none ↔ ∀ e ∈ s.edgesAt position, ¬ e.Answers kind text := by
  unfold find?
  simp only [Option.map_eq_none_iff, List.find?_eq_none, answers_iff]

/--
A lookup finds the first edge that answers to the kind and the text, and nothing if there is none. An
edge answers to the text of its name, and to no other text unless that is a signed index.
-/
theorem find?_first_answer (s : Snapshot) (position : Nat) (kind : EdgeKind) (text : String)
    : (∀ target, s.find? position kind text = some target
        ↔
      ∃ before edge after,
        s.edgesAt position = before ++ edge :: after ∧
        edge.target = target ∧
        edge.Answers kind text ∧
        ∀ e ∈ before, ¬ e.Answers kind text)
      ∧ (s.find? position kind text = none ↔ ∀ e ∈ s.edgesAt position, ¬ e.Answers kind text)
      ∧ (∀ n : EdgeName, n.isCalled text ↔ text = n.text ∨ n.IsSigned text)
      ∧ (∀ n : EdgeName, (n.isCalled text ↔ text = n.text) ↔ ¬ n.IsSigned text) := by
  refine ⟨?_, ?_, ?_, ?_⟩
  . apply find?_eq_some_iff
  . apply find?_eq_none_iff
  . intro n
    apply EdgeName.isCalled_iff
  . intro n
    apply EdgeName.isCalled_exact_iff

/-- The edge with index 3 answers to a text that is not the text of its name. -/
theorem isCalled_plus_three : ¬ ∀ (n : EdgeName) (text : String), n.isCalled text ↔ text = n.text := by
  intro h
  have hcalled : (EdgeName.index 3).isCalled "+3" = true := by decide +kernel
  have htext := (h (.index 3) "+3").1 hcalled
  have hsigned : (EdgeName.index 3).IsSigned "+3" := ⟨3, 0, rfl, by decide +kernel⟩
  exact hsigned.ne_text htext

end Snapshot
end ScriptHost
