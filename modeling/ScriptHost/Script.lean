import ScriptHost.Text.Lines

/-!
This module contains the scripts of a session: texts under the names they were loaded by.
-/

namespace ScriptHost

/-- A script, given by its position in the order of registration. -/
structure ScriptId where
  index : Nat
deriving DecidableEq, Inhabited

structure Script where
  origin : String
  source : String
deriving DecidableEq

namespace Script

/-- The text of a line, counted from one, without its end. -/
def line? (s : Script) (line : Nat) : Option String :=
  (Text.line? s.source.toList line).map String.ofList

/-- The `len` characters from `offset` on, as far as they exist. -/
def slice (s : Script) (offset len : Nat) : String :=
  String.ofList ((s.source.toList.drop offset).take len)

end Script
end ScriptHost
