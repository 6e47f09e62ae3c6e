import Std.Data.HashMap

/-!
This module contains the exploration of a graph that is given by the successors of its vertices: breadth
first from one vertex, with every vertex found once.
-/

namespace ScriptHost

variable {α : Type} [BEq α] [Hashable α]

/-- The vertices found so far in the order in which they were found, and the place of each in it. -/
structure Exploration (α : Type) [BEq α] [Hashable α] where
  order : Array α := #[]
  position : Std.HashMap α Nat := {}

namespace Exploration

/-- Find a vertex, unless it has been found before. -/
def visit (e : Exploration α) (a : α) : Exploration α :=
  if e.position.contains a then e
  else ⟨e.order.push a, e.position.insert a e.order.size⟩

/-- Find the successors of the vertices from the place `cursor` on, `fuel` vertices at most. -/
def run (successors : α → List α) (cursor : Nat) (e : Exploration α) : (fuel : Nat) → Exploration α
  | 0 => e
  | fuel + 1 =>
    match e.order[cursor]? with
    | none => e
    | some a => run successors (cursor + 1) ((successors a).foldl visit e) fuel

end Exploration

/-- The vertices that can be reached from `start`, if there are no more than `bound`. -/
def explore (successors : α → List α) (start : α) (bound : Nat) : Exploration α :=
  Exploration.run successors 0 (Exploration.visit {} start) bound

end ScriptHost
