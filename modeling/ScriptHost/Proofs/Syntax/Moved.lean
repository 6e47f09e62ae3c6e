import Mathlib.Data.List.Forall2
import ScriptHost.Proofs.Syntax.Locations
import ScriptHost.Proofs.Syntax.Tree

/-!
This module contains trees in another place: the same tree whose locations are all as long, and as far from
the place of the one tree as from that of the other.
-/

namespace ScriptHost

/-- The same stretch in another text, where `d'` is the offset that `d` is here. -/
structure Location.Moved (d d' : Nat) (l l' : Location) : Prop where
  len : l'.len = l.len
  offset : l'.offset + d = l.offset + d'

structure Expr.Moved (d d' : Nat) (e e' : Expr) : Prop where
  unplaced : e'.unplaced = e.unplaced
  locations : List.Forall₂ (Location.Moved d d') e.locations e'.locations

structure Function.Moved (d d' : Nat) (f f' : Function) : Prop where
  unplaced : f'.unplaced = f.unplaced
  locations : List.Forall₂ (Location.Moved d d') f.locations f'.locations

structure FunctionBody.Moved (d d' : Nat) (body body' : FunctionBody) : Prop where
  unplaced : body'.unplaced = body.unplaced
  locations : List.Forall₂ (Location.Moved d d') body.locations body'.locations

structure Stmt.Moved (d d' : Nat) (st st' : Stmt) : Prop where
  unplaced : st'.unplaced = st.unplaced
  locations : List.Forall₂ (Location.Moved d d') st.locations st'.locations

structure Property.Moved (d d' : Nat) (p p' : Property) : Prop where
  key : p'.key = p.key
  value : p.value.Moved d d' p'.value

structure Declarator.Moved (d d' : Nat) (decl decl' : Declarator) : Prop where
  name : decl'.name = decl.name
  init : Option.Rel (Expr.Moved d d') decl.init decl'.init
  loc : decl.loc.Moved d d' decl'.loc

structure Handler.Moved (d d' : Nat) (handler handler' : Handler) : Prop where
  param : handler'.param = handler.param
  body : List.Forall₂ (Stmt.Moved d d') handler.body handler'.body

variable {d d' : Nat}

theorem Location.Moved.endOffset {l l' : Location} (h : l.Moved d d' l') : l'.endOffset + d = l.endOffset + d' := by
  have := h.len
  have := h.offset
  simp only [Location.endOffset]
  omega

theorem Location.Moved.through {l l' m m' : Location} (h : l.Moved d d' l') (hm : m.Moved d d' m')
    : (l.through m).Moved d d' (l'.through m') := by
  refine ⟨?_, h.offset⟩
  have := h.offset
  have := h.endOffset
  have := hm.endOffset
  simp only [Location.through]
  omega

namespace Expr

theorem moved_all {es es' : List Expr} (h : List.Forall₂ (Expr.Moved d d') es es')
    : Expr.unplacedAll es' = Expr.unplacedAll es ∧
      List.Forall₂ (Location.Moved d d') (Expr.locationsAll es) (Expr.locationsAll es') := by
  induction h with
  | nil => exact ⟨rfl, .nil⟩
  | cons h _ ih => exact ⟨by simp only [Expr.unplacedAll, h.unplaced, ih.1], List.rel_append h.locations ih.2⟩

theorem moved? {e e' : Option Expr} (h : Option.Rel (Expr.Moved d d') e e')
    : Expr.unplaced? e' = Expr.unplaced? e ∧
      List.Forall₂ (Location.Moved d d') (Expr.locations? e) (Expr.locations? e') := by
  cases h with
  | none => exact ⟨rfl, .nil⟩
  | some h => exact ⟨by simp only [Expr.unplaced?, h.unplaced], h.locations⟩

theorem Moved.isAssignable {e e' : Expr} (h : e.Moved d d' e') : e'.isAssignable = e.isAssignable := by
  have hself : ∀ e : Expr, e.unplaced.isAssignable = e.isAssignable := by
    intro e
    cases e <;> rfl
  rw [← hself, h.unplaced, hself]

theorem locations_eq (e : Expr) : ∃ ls, e.locations = e.loc :: ls := by
  cases e with
  | function f =>
    cases f
    exact ⟨_, rfl⟩
  | _ => exact ⟨_, rfl⟩

theorem Moved.loc {e e' : Expr} (h : e.Moved d d' e') : e.loc.Moved d d' e'.loc := by
  obtain ⟨ls, hls⟩ := e.locations_eq
  obtain ⟨ls', hls'⟩ := e'.locations_eq
  have := h.locations
  rw [hls, hls'] at this
  exact (List.forall₂_cons.1 this).1

end Expr

theorem Property.moved_all {ps ps' : List Property} (h : List.Forall₂ (Property.Moved d d') ps ps')
    : Property.unplacedAll ps' = Property.unplacedAll ps ∧
      List.Forall₂ (Location.Moved d d') (Property.locationsAll ps) (Property.locationsAll ps') := by
  induction h with
  | nil => exact ⟨rfl, .nil⟩
  | @cons p p' _ _ h _ ih =>
    cases p
    cases p'
    obtain ⟨rfl, h⟩ := h
    exact ⟨by simp only [Property.unplacedAll, h.unplaced, ih.1], List.rel_append h.locations ih.2⟩

theorem Declarator.moved_all {ds ds' : List Declarator} (h : List.Forall₂ (Declarator.Moved d d') ds ds')
    : Declarator.unplacedAll ds' = Declarator.unplacedAll ds ∧
      List.Forall₂ (Location.Moved d d') (Declarator.locationsAll ds) (Declarator.locationsAll ds') := by
  induction h with
  | nil => exact ⟨rfl, .nil⟩
  | @cons decl decl' _ _ h _ ih =>
    cases decl
    cases decl'
    obtain ⟨rfl, hinit, hloc⟩ := h
    obtain ⟨hunplaced, hlocations⟩ := Expr.moved? hinit
    exact ⟨by simp only [Declarator.unplacedAll, hunplaced, ih.1], .cons hloc (List.rel_append hlocations ih.2)⟩

namespace Stmt

theorem moved_all {stmts stmts' : List Stmt} (h : List.Forall₂ (Stmt.Moved d d') stmts stmts')
    : Stmt.unplacedAll stmts' = Stmt.unplacedAll stmts ∧
      List.Forall₂ (Location.Moved d d') (Stmt.locationsAll stmts) (Stmt.locationsAll stmts') := by
  induction h with
  | nil => exact ⟨rfl, .nil⟩
  | cons h _ ih => exact ⟨by simp only [Stmt.unplacedAll, h.unplaced, ih.1], List.rel_append h.locations ih.2⟩

theorem moved_all? {stmts stmts' : Option (List Stmt)}
    (h : Option.Rel (List.Forall₂ (Stmt.Moved d d')) stmts stmts')
    : Stmt.unplacedAll? stmts' = Stmt.unplacedAll? stmts ∧
      List.Forall₂ (Location.Moved d d') (Stmt.locationsAll? stmts) (Stmt.locationsAll? stmts') := by
  cases h with
  | none => exact ⟨rfl, .nil⟩
  | some h =>
    obtain ⟨hunplaced, hlocations⟩ := moved_all h
    exact ⟨by simp only [Stmt.unplacedAll?, hunplaced], hlocations⟩

theorem moved? {st st' : Option Stmt} (h : Option.Rel (Stmt.Moved d d') st st')
    : Stmt.unplaced? st' = Stmt.unplaced? st ∧
      List.Forall₂ (Location.Moved d d') (Stmt.locations? st) (Stmt.locations? st') := by
  cases h with
  | none => exact ⟨rfl, .nil⟩
  | some h => exact ⟨by simp only [Stmt.unplaced?, h.unplaced], h.locations⟩

end Stmt

theorem Handler.moved? {handler handler' : Option Handler}
    (h : Option.Rel (Handler.Moved d d') handler handler')
    : Handler.unplaced? handler' = Handler.unplaced? handler ∧
      List.Forall₂ (Location.Moved d d') (Handler.locations? handler) (Handler.locations? handler') := by
  cases h with
  | none => exact ⟨rfl, .nil⟩
  | @some handler handler' h =>
    cases handler
    cases handler'
    obtain ⟨rfl, hbody⟩ := h
    obtain ⟨hunplaced, hlocations⟩ := Stmt.moved_all hbody
    exact ⟨by simp only [Handler.unplaced?, hunplaced], hlocations⟩

end ScriptHost
