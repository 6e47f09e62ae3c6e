/-!
This module contains places in a text. Lines and columns count from one, offsets from zero, all of them
in characters.
-/

namespace ScriptHost

/-- A stretch of `len` characters that starts at `offset`, which is at `line` and `column`. -/
structure Location where
  line : Nat := 0
  column : Nat := 0
  offset : Nat := 0
  len : Nat := 0
deriving DecidableEq, Inhabited

namespace Location

def endOffset (l : Location) : Nat :=
  l.offset + l.len

/-- The location extended to the end of another one, if that ends later. -/
def through (l other : Location) : Location :=
  { l with len := max other.endOffset l.endOffset - l.offset }

end Location

/-- A point between two characters of a text. -/
structure Cursor where
  line : Nat := 1
  column : Nat := 1
  offset : Nat := 0
deriving DecidableEq

namespace Cursor

/-- The point after one more character. -/
def next (p : Cursor) (c : Char) : Cursor :=
  if c = '\n' then ⟨p.line + 1, 1, p.offset + 1⟩ else ⟨p.line, p.column + 1, p.offset + 1⟩

def after (p : Cursor) (cs : List Char) : Cursor :=
  cs.foldl next p

/-- The location of the `len` characters after a point. -/
def span (p : Cursor) (len : Nat) : Location :=
  ⟨p.line, p.column, p.offset, len⟩

theorem after_append (p : Cursor) (as bs : List Char) :
    p.after (as ++ bs) = (p.after as).after bs := by
  simp [after]

theorem offset_after (p : Cursor) (cs : List Char) : (p.after cs).offset = p.offset + cs.length := by
  induction cs generalizing p with
  | nil => rfl
  | cons c cs ih =>
    have : (p.next c).offset = p.offset + 1 := by
      unfold next
      split <;> rfl
    simp only [after, List.foldl_cons, List.length_cons] at ih ⊢
    rw [ih, this]
    omega

end Cursor
end ScriptHost
