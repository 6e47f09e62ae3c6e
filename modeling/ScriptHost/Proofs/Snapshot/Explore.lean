import ScriptHost.Snapshot.Explore

/-!
This module contains the correctness of the exploration of a graph. If the vertices that can be reached
are among `bound` many, every one of them is found, and none is found twice.
-/

namespace ScriptHost

variable {α : Type} [BEq α] [LawfulBEq α] [Hashable α]

namespace Exploration

/-- No vertex is found twice, and `position` is the inverse of `order`. -/
structure Valid (e : Exploration α) : Prop where
  nodup : e.order.toList.Nodup
  position_eq_some_iff : ∀ (a : α) (i : Nat), e.position[a]? = some i ↔ e.order[i]? = some a

theorem valid_empty : Valid ({} : Exploration α) where
  nodup := by simp
  position_eq_some_iff := by simp

theorem Valid.contains_iff {e : Exploration α} (h : e.Valid) (a : α)
    : e.position.contains a ↔ a ∈ e.order := by
  rw [Std.HashMap.contains_eq_isSome_getElem?, Option.isSome_iff_exists, Array.mem_iff_getElem?]
  simp only [h.position_eq_some_iff]

theorem Valid.visit {e : Exploration α} (h : e.Valid) (a : α) : (e.visit a).Valid := by
  unfold Exploration.visit
  split
  . exact h
  . next ha =>
    have hmem : a ∉ e.order := by
      rw [← h.contains_iff]
      exact ha
    refine ⟨?_, ?_⟩
    . rw [Array.toList_push, List.nodup_append]
      refine ⟨h.nodup, by simp, ?_⟩
      intro b hb c hc hbc
      rw [List.mem_singleton] at hc
      rw [hbc, hc] at hb
      exact hmem (Array.mem_def.2 hb)
    . intro b i
      rw [Std.HashMap.getElem?_insert, Array.getElem?_push]
      split
      . next hab =>
        have hb : b = a := (eq_of_beq hab).symm
        subst hb
        split
        . next hi => simp [hi]
        . next hi =>
          constructor
          . intro h'
            injection h' with h'
            exact absurd h'.symm hi
          . intro h'
            exact absurd (Array.mem_of_getElem? h') hmem
      . next hab =>
        rw [h.position_eq_some_iff]
        split
        . next hi =>
          subst hi
          simp only [Array.getElem?_eq_none (Nat.le_refl _), reduceCtorEq, false_iff,
            Option.some.injEq]
          intro h'
          exact hab (beq_iff_eq.2 h')
        . rfl

theorem mem_order_visit {e : Exploration α} (h : e.Valid) (a b : α)
    : b ∈ (e.visit a).order ↔ b ∈ e.order ∨ b = a := by
  unfold visit
  split
  . next ha =>
    rw [h.contains_iff] at ha
    constructor
    . exact Or.inl
    . rintro (hb | rfl)
      . exact hb
      . exact ha
  . simp

omit [LawfulBEq α] in
theorem order_prefix_visit (e : Exploration α) (a : α)
    : e.order.toList <+: (e.visit a).order.toList := by
  unfold visit
  split
  . exact List.prefix_rfl
  . simp

theorem Valid.foldl_visit {e : Exploration α} (h : e.Valid) (as : List α)
    : (as.foldl Exploration.visit e).Valid := by
  induction as generalizing e with
  | nil => exact h
  | cons a as ih => exact ih (h.visit a)

theorem mem_order_foldl_visit {e : Exploration α} (h : e.Valid) (as : List α) (b : α)
    : b ∈ (as.foldl visit e).order ↔ b ∈ e.order ∨ b ∈ as := by
  induction as generalizing e with
  | nil => simp
  | cons a as ih =>
    rw [List.foldl_cons, ih (h.visit a), mem_order_visit h, List.mem_cons, or_assoc]

omit [LawfulBEq α] in
theorem order_prefix_foldl_visit (e : Exploration α) (as : List α)
    : e.order.toList <+: (as.foldl visit e).order.toList := by
  induction as generalizing e with
  | nil => exact List.prefix_rfl
  | cons a as ih => exact (order_prefix_visit e a).trans (ih (e.visit a))

/--
What holds before every turn of the exploration: the vertices before `cursor` have all their successors
found, and every vertex that was found has the property `P`.
-/
structure Progress (successors : α → List α) (P : α → Prop) (cursor : Nat) (e : Exploration α) :
    Prop where
  valid : e.Valid
  cursor_le : cursor ≤ e.order.size
  expanded : ∀ i a, i < cursor → e.order[i]? = some a → ∀ b ∈ successors a, b ∈ e.order
  sound : ∀ a ∈ e.order, P a

variable {successors : α → List α} {P : α → Prop}

theorem Progress.next (hP : ∀ a b, P a → b ∈ successors a → P b) {cursor : Nat}
    {e : Exploration α} (h : Progress successors P cursor e) {a : α}
    (ha : e.order[cursor]? = some a)
    : Progress successors P (cursor + 1) ((successors a).foldl visit e) := by
  have hlt : cursor < e.order.size := (Array.getElem?_eq_some_iff.1 ha).1
  have horder := order_prefix_foldl_visit e (successors a)
  have hle : e.order.size ≤ ((successors a).foldl visit e).order.size := by
    have := horder.length_le
    simpa using this
  -- the vertices that were found before keep their places
  have hold : ∀ i, i < e.order.size →
      ((successors a).foldl visit e).order[i]? = e.order[i]? := by
    intro i hi
    obtain ⟨later, hlater⟩ := horder
    rw [← Array.getElem?_toList, ← Array.getElem?_toList, ← hlater]
    exact List.getElem?_append_left (by simpa using hi)
  refine ⟨h.valid.foldl_visit _, by omega, ?_, ?_⟩
  . intro i c hi hc b hb
    rw [mem_order_foldl_visit h.valid]
    rw [hold i (by omega)] at hc
    by_cases hicursor : i = cursor
    . subst hicursor
      rw [ha] at hc
      injection hc with hc
      subst hc
      exact Or.inr hb
    . exact Or.inl (h.expanded i c (by omega) hc b hb)
  . intro b hb
    rw [mem_order_foldl_visit h.valid] at hb
    cases hb with
    | inl hb => exact h.sound b hb
    | inr hb => exact hP a b (h.sound a (Array.mem_of_getElem? ha)) hb

omit [LawfulBEq α] in
theorem Progress.size_le {cursor : Nat} {e : Exploration α} (h : Progress successors P cursor e)
    {range : List α} (hP : ∀ a, P a → a ∈ range)
    : e.order.size ≤ range.length := by
  rw [← Array.length_toList]
  apply h.valid.nodup.length_le_of_subset
  intro a ha
  exact hP a (h.sound a (Array.mem_def.2 ha))

/-- With fuel for all vertices that have the property, the exploration ends behind the last one. -/
theorem Progress.run (hP : ∀ a b, P a → b ∈ successors a → P b) {range : List α}
    (hrange : ∀ a, P a → a ∈ range) {cursor : Nat} {e : Exploration α}
    (h : Progress successors P cursor e) {fuel : Nat} (hfuel : range.length ≤ cursor + fuel)
    : Progress successors P (Exploration.run successors cursor e fuel).order.size
        (Exploration.run successors cursor e fuel) := by
  induction fuel generalizing cursor e with
  | zero =>
    have hle := h.cursor_le
    have hsize := h.size_le hrange
    -- no more vertices can have been found than there are with the property
    have hcursor : cursor = e.order.size := by omega
    unfold Exploration.run
    rw [hcursor] at h
    exact h
  | succ fuel ih =>
    unfold Exploration.run
    split
    . next hnone =>
      have hcursor : cursor = e.order.size := by
        have hle := h.cursor_le
        have hge := Array.getElem?_eq_none_iff.1 hnone
        omega
      rw [hcursor] at h
      exact h
    . next a ha =>
      apply ih (h.next hP ha)
      omega

omit [LawfulBEq α] in
theorem run_prefix (cursor : Nat) (e : Exploration α) (fuel : Nat)
    : e.order.toList <+: (Exploration.run successors cursor e fuel).order.toList := by
  induction fuel generalizing cursor e with
  | zero => exact List.prefix_rfl
  | succ fuel ih =>
    unfold Exploration.run
    split
    . exact List.prefix_rfl
    . exact (order_prefix_foldl_visit e _).trans (ih _ _)

theorem progress_start {start : α} (hstart : P start)
    : Progress successors P 0 (Exploration.visit {} start) where
  valid := valid_empty.visit start
  cursor_le := Nat.zero_le _
  expanded := by
    intro i a hi
    omega
  sound := by
    intro a ha
    rw [mem_order_visit valid_empty] at ha
    cases ha with
    | inl ha => simp at ha
    | inr ha =>
      rw [ha]
      exact hstart

end Exploration

open Exploration

variable {successors : α → List α} {P : α → Prop} {start : α} {range : List α} {bound : Nat}

/--
An exploration with fuel for all vertices that have a property, which holds of the first vertex and goes
over to successors, finds every successor of what it finds, and finds no vertex without the property.
-/
theorem explore_progress (hstart : P start) (hP : ∀ a b, P a → b ∈ successors a → P b)
    (hrange : ∀ a, P a → a ∈ range) (hbound : range.length ≤ bound)
    : Progress successors P (explore successors start bound).order.size
        (explore successors start bound) := by
  unfold explore
  apply (progress_start hstart).run hP hrange
  omega

omit [LawfulBEq α] in
theorem explore_getElem?_zero (successors : α → List α) (start : α) (bound : Nat)
    : (explore successors start bound).order[0]? = some start := by
  have horder : _ <+: (Exploration.run successors 0 (visit {} start) bound).order.toList :=
    run_prefix 0 (visit {} start) bound
  have hfirst : (visit {} start).order.toList = [start] := by simp [visit]
  obtain ⟨later, hlater⟩ := horder
  unfold explore
  rw [← Array.getElem?_toList, ← hlater, hfirst]
  rfl

end ScriptHost
