import ScriptHost.Eval.Basic
import ScriptHost.Proofs.Heap.Bindings
import ScriptHost.Proofs.Heap.Raised
import ScriptHost.Session.Variable
import ScriptHost.Snapshot.Profiler

/-!
This module contains sessions under higher limits of the memory and of the calls. All that scripts find out
about a session is the same.
-/

namespace ScriptHost

namespace CallStack

variable {stack stack' : CallStack} {calls : Nat} {frame : Frame}

/-- The stack with room for so many calls more. -/
def raised (stack : CallStack) (calls : Nat) : CallStack :=
  { stack with maxDepth := stack.maxDepth + calls }

theorem push?_eq_some_iff
    : stack.push? frame = some stack'
        ↔ stack.depth < stack.maxDepth ∧ stack' = { stack with frames := stack.frames.push frame } := by
  unfold push?
  split
  . next hfull => exact ⟨nofun, fun ⟨hroom, _⟩ => absurd hroom (Nat.not_lt.2 hfull)⟩
  . next hroom => simp [Nat.lt_of_not_le hroom, eq_comm]

theorem push?_raised (hpush : stack.push? frame = some stack')
    : (stack.raised calls).push? frame = some (stack'.raised calls) := by
  obtain ⟨hroom, rfl⟩ := push?_eq_some_iff.1 hpush
  exact push?_eq_some_iff.2 ⟨Nat.lt_add_right calls hroom, rfl⟩

end CallStack

/-- The limits with so many bytes and so many calls more. -/
def Config.raised (config : Config) (memory calls : Nat) : Config :=
  { config with heapLimit := config.heapLimit + memory, maxCallDepth := config.maxCallDepth + calls }

/-- The session with room for so many bytes and so many calls more. -/
def Session.raised (s : Session) (memory calls : Nat) : Session :=
  { s with heap := s.heap.raised memory, stack := s.stack.raised calls }

/-- The outcome in a session with so much room more. -/
def Outcome.raised {α : Type} (memory calls : Nat) : Outcome α → Outcome α
  | .done a s => .done a (s.raised memory calls)
  | .thrown e s => .thrown e (s.raised memory calls)
  | .stopped why => .stopped why

variable {memory calls : Nat}

theorem Heap.findBinding?_raised (h : Heap) (name : String) (id : ObjectId)
    : (h.raised memory).findBinding? name id = h.findBinding? name id := by
  fun_induction h.findBinding? name id with
  | case1 id i hindex =>
    unfold Heap.findBinding?
    rw [show (h.raised memory).bindingIndex? id name = some i from hindex]
  | case2 id hindex parent bindings hcontent hlt ih =>
    rw [Heap.findBinding?, show (h.raised memory).bindingIndex? id name = none from hindex]
    dsimp only
    rw [show (h.raised memory).content id = .scope (some parent) bindings from hcontent]
    dsimp only
    rw [if_pos hlt, ih]
  | case3 id hindex parent bindings hcontent hlt =>
    rw [Heap.findBinding?, show (h.raised memory).bindingIndex? id name = none from hindex]
    dsimp only
    rw [show (h.raised memory).content id = .scope (some parent) bindings from hcontent]
    dsimp only
    rw [if_neg hlt]
  | case4 id hindex hcontent =>
    rw [Heap.findBinding?, show (h.raised memory).bindingIndex? id name = none from hindex]
    dsimp only
    split
    . next parent bindings hscope => exact absurd hscope (hcontent parent bindings)
    . rfl

theorem Profiler.take_raised (p : Profiler) (h : Heap) (roots : Roots)
    : p.take (h.raised memory) roots = p.take h roots :=
  rfl

theorem Profiler.haunt_raised (p : Profiler) (h : Heap) (roots : Roots)
    : p.haunt (h.raised memory) roots = p.haunt h roots :=
  rfl

theorem DisplayContext.display?_raised (c : DisplayContext) (visiting : List ObjectId) (v : Value) (n : Nat)
    : { c with heap := c.heap.raised memory }.display? visiting v n = c.display? visiting v n := by
  induction n generalizing visiting v with
  | zero => rfl
  | succ n ih =>
    cases v with
    | object id =>
      rw [display?.eq_2, display?.eq_2]
      simp only [ih]
      rfl
    | _ => rfl

namespace Session

variable (s : Session)

theorem findBinding?_raised (name : String)
    : (s.raised memory calls).findBinding? name = s.findBinding? name := by
  unfold findBinding?
  rw [show (s.raised memory calls).scope? = s.scope? from rfl]
  exact congrArg s.scope?.bind (funext (s.heap.findBinding?_raised name))

theorem readVariable?_raised (name : String)
    : (s.raised memory calls).readVariable? name = s.readVariable? name := by
  unfold readVariable?
  rw [findBinding?_raised]
  rfl

theorem traceLines_raised (frames : List Frame) (loc? : Option Location)
    : (s.raised memory calls).traceLines frames loc? = s.traceLines frames loc? := by
  induction frames generalizing loc? with
  | nil => cases loc? <;> rfl
  | cons frame frames ih =>
    cases loc? with
    | none => rfl
    | some loc => exact congrArg (List.cons _) (ih frame.callSite)

theorem trace_raised (headline : String) (loc : Location)
    : (s.raised memory calls).trace headline loc = s.trace headline loc := by
  unfold trace
  dsimp only
  rw [traceLines_raised]
  rfl

theorem exception_raised (cause : Cause) (loc : Location)
    : (s.raised memory calls).exception cause loc = s.exception cause loc := by
  unfold exception
  rw [trace_raised]
  rfl

theorem display?_raised (config : Config) (v : Value) (n : Nat)
    : ((s.raised memory calls).displayContext config).display? [] v n
        = (s.displayContext config).display? [] v n :=
  DisplayContext.display?_raised (s.displayContext config) [] v n

end Session
end ScriptHost
