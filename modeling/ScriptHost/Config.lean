/-!
This module contains the limits that a session runs under.
-/

namespace ScriptHost

structure Config where
  /-- How many calls may be running at once. -/
  maxCallDepth : Nat := 400
  /-- How many expressions may be under evaluation at once, in all calls together. -/
  maxExpressionDepth : Nat := 10000
  heapLimit : Nat := 64 * 1024 * 1024
  /-- Longer interactive lines are cut. -/
  maxLineLength : Nat := 256
deriving DecidableEq, Inhabited

end ScriptHost
