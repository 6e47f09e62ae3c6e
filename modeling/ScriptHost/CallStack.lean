import ScriptHost.Location
import ScriptHost.Script
import ScriptHost.Value

/-!
This module contains the call stack, whose depth is bounded.
-/

namespace ScriptHost

/-- A call of a function, or a run of a script at top level. -/
structure Frame where
  /-- The name of the function is empty at top level and in functions without a name. -/
  functionName : String := ""
  script : ScriptId
  /-- The scope with the variables of the call; at top level they are global. -/
  scope : Option ObjectId := none
  /-- The place in the calling script. -/
  callSite : Option Location := none
deriving DecidableEq

/-- The frames of the calls that are running, outermost first. -/
structure CallStack where
  frames : Array Frame := #[]
  maxDepth : Nat
deriving DecidableEq

namespace CallStack

def depth (s : CallStack) : Nat :=
  s.frames.size

def current? (s : CallStack) : Option Frame :=
  s.frames.back?

/-- The stack with one more frame, unless it is full. -/
def push? (s : CallStack) (frame : Frame) : Option CallStack :=
  if s.maxDepth ≤ s.depth then none else some { s with frames := s.frames.push frame }

def pop (s : CallStack) : CallStack :=
  { s with frames := s.frames.pop }

def modifyCurrent (s : CallStack) (f : Frame → Frame) : CallStack :=
  { s with frames := s.frames.modify (s.depth - 1) f }

/-- The outermost `depth` frames. -/
def truncate (s : CallStack) (depth : Nat) : CallStack :=
  { s with frames := s.frames.take depth }

end CallStack
end ScriptHost
