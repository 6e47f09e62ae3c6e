import Mathlib.Data.List.Induction
import ScriptHost.Proofs.Snapshot.Explore
import ScriptHost.Snapshot.Capture

/-!
This module contains how the nodes and edges of a captured heap are laid out: the node of every entity
stands where the entity was found, and the edges that leave it follow those of the nodes before it.
-/

namespace ScriptHost.Snapshot

variable (heap : Heap) (roots : Roots) (position : Entity → Nat)

def edgesOf (entities : List Entity) : List SnapshotEdge :=
  entities.flatMap fun e => (references heap roots e).map (Reference.edge position)

/-- How many entities have an id for one snapshot only. -/
def localCount (entities : List Entity) : Nat :=
  entities.countP fun e => (stableId? heap e).isNone

def nextLocalId (entities : List Entity) : UInt32 :=
  UInt32.ofNat (2 + 2 * localCount heap entities)

/-- The node of an entity behind the nodes of the entities `before`. -/
def nodeBehind (before : List Entity) (entity : Entity) : SnapshotNode where
  id := (stableId? heap entity).getD (nextLocalId heap before)
  type := (describe heap entity).1
  name := (describe heap entity).2.1
  size := (describe heap entity).2.2
  firstEdge := (edgesOf heap roots position before).length
  edgeCount := (references heap roots entity).length

theorem edgesOf_append (as bs : List Entity)
    : edgesOf heap roots position (as ++ bs)
        = edgesOf heap roots position as ++ edgesOf heap roots position bs := by
  unfold edgesOf
  rw [List.flatMap_append]

theorem edgesOf_singleton (entity : Entity)
    : edgesOf heap roots position [entity]
        = (references heap roots entity).map (Reference.edge position) := by
  simp [edgesOf]

theorem nextLocalId_concat (entities : List Entity) (entity : Entity)
    : nextLocalId heap (entities ++ [entity])
        =
      if (stableId? heap entity).isNone then nextLocalId heap entities + Heap.stableIdStep
      else nextLocalId heap entities := by
  unfold nextLocalId localCount
  rw [List.countP_append, List.countP_singleton]
  split
  . rw [show Heap.stableIdStep = UInt32.ofNat 2 from rfl, ← UInt32.ofNat_add]
    rfl
  . rfl

structure LaidOut (entities : List Entity)
    (s : Array SnapshotNode × Array SnapshotEdge × UInt32) : Prop where
  size : s.1.size = entities.length
  node : ∀ i e, entities[i]? = some e →
    s.1[i]? = some (nodeBehind heap roots position (entities.take i) e)
  edges : s.2.1.toList = edgesOf heap roots position entities
  nextId : s.2.2 = nextLocalId heap entities

theorem laidOut_nil : LaidOut heap roots position [] (#[], #[], 2) where
  size := rfl
  node := by simp
  edges := rfl
  nextId := rfl

variable {heap roots position}

theorem addNode_eq {entities : List Entity} {s : Array SnapshotNode × Array SnapshotEdge × UInt32}
    (h : LaidOut heap roots position entities s) (entity : Entity)
    : addNode heap roots position s entity
        =
      (s.1.push (nodeBehind heap roots position entities entity),
        s.2.1 ++ (references heap roots entity).map (Reference.edge position),
        nextLocalId heap (entities ++ [entity])) := by
  have hedges : s.2.1.size = (edgesOf heap roots position entities).length := by
    rw [← h.edges, Array.length_toList]
  unfold addNode nodeBehind
  rw [nextLocalId_concat, ← hedges, ← h.nextId]
  cases stableId? heap entity with
  | none => rfl
  | some id => rfl

theorem LaidOut.concat {entities : List Entity}
    {s : Array SnapshotNode × Array SnapshotEdge × UInt32}
    (h : LaidOut heap roots position entities s) (entity : Entity)
    : LaidOut heap roots position (entities ++ [entity]) (addNode heap roots position s entity) := by
  rw [addNode_eq h]
  refine ⟨?_, ?_, ?_, rfl⟩
  . rw [Array.size_push, h.size, List.length_append]
    rfl
  . intro i e he
    rw [Array.getElem?_push, h.size]
    split
    . next hi =>
      subst hi
      rw [List.getElem?_concat_length] at he
      injection he with he
      rw [he, List.take_left]
    . next hi =>
      -- a node that was there keeps its place, with the same entities before it
      have hlt : i < entities.length := by
        have := (List.getElem?_eq_some_iff.1 he).1
        rw [List.length_append, List.length_singleton] at this
        omega
      rw [List.getElem?_append_left hlt] at he
      rw [List.take_append_of_le_length (Nat.le_of_lt hlt)]
      exact h.node i e he
  . rw [edgesOf_append, edgesOf_singleton, ← h.edges]
    simp

theorem laidOut_foldl (entities : List Entity)
    : LaidOut heap roots position entities
        (entities.foldl (addNode heap roots position) (#[], #[], 2)) := by
  induction entities using List.reverseRecOn with
  | nil => exact laidOut_nil heap roots position
  | append_singleton entities entity ih =>
    rw [List.foldl_append]
    exact ih.concat entity

theorem LaidOut.edgesAt {entities : List Entity} {snapshot : Snapshot} {next : UInt32}
    (h : LaidOut heap roots position entities (snapshot.nodes, snapshot.edges, next)) {i : Nat}
    {e : Entity} (he : entities[i]? = some e)
    : snapshot.edgesAt i = (references heap roots e).map (Reference.edge position) := by
  have hsplit : entities = entities.take i ++ [e] ++ entities.drop (i + 1) := by
    obtain ⟨hi, rfl⟩ := List.getElem?_eq_some_iff.1 he
    simp
  -- the edges of the entity lie between those of the entities before it and behind it
  have hedges : snapshot.edges.toList = _ := h.edges
  rw [hsplit, edgesOf_append, edgesOf_append, edgesOf_singleton] at hedges
  unfold Snapshot.edgesAt
  rw [h.node i e he]
  simp only [nodeBehind]
  rw [Array.toList_extract, List.extract_eq_take_drop, hedges, List.append_assoc, List.drop_left,
    Nat.add_sub_cancel_left]
  exact List.take_left' (by rw [List.length_map])

variable (heap roots)

def successors (e : Entity) : List Entity :=
  (references heap roots e).map Reference.target

/-- The entities of the live part of a heap, in the order of their nodes. -/
def entities : List Entity :=
  (explore (successors heap roots) .root (entityBound heap roots)).order.toList

def positionOf (e : Entity) : Nat :=
  (explore (successors heap roots) .root (entityBound heap roots)).position.getD e 0

theorem capture_laidOut (uid : UInt32)
    : LaidOut heap roots (positionOf heap roots) (entities heap roots)
        ((capture heap roots uid).nodes, (capture heap roots uid).edges,
          nextLocalId heap (entities heap roots)) := by
  have h : LaidOut heap roots (positionOf heap roots) (entities heap roots) _ :=
    laidOut_foldl (entities heap roots)
  have hnext := h.nextId
  unfold entities at h hnext ⊢
  rw [Array.foldl_toList] at h hnext
  rw [← hnext]
  exact h

end ScriptHost.Snapshot
