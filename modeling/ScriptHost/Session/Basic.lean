import ScriptHost.CallStack
import ScriptHost.Config
import ScriptHost.Console
import ScriptHost.Exception
import ScriptHost.Snapshot.Profiler
import ScriptHost.Sources

/-!
This module contains sessions, which are everything that running scripts change, and the monad in which
scripts run. A run ends with a value, with an exception, or without an answer.
-/

namespace ScriptHost

/-- The persistent state that all scripts of a session share. -/
structure Session where
  heap : Heap
  /-- The object whose properties are the global variables. -/
  global : ObjectId
  stack : CallStack
  /-- The global variables that are constant. -/
  consts : List String := []
  /-- The functions that wait to be called, the next one first. -/
  microtasks : List Value := []
  scripts : Array Script := #[]
  profiler : Profiler := {}
  console : Console := #[]
  /-- How many expressions are under evaluation. -/
  expressionDepth : Nat := 0

/-- What a run can look at but not change. -/
structure Env where
  config : Config
  sources : Sources
  /-- A bound on every recursion and every loop of a run. -/
  fuel : Nat

/-- Why a run ends without an answer. -/
inductive Stop where
  | outOfFuel
  /-- The run needs a source that has not been asked for. -/
  | unread (name : String)
deriving DecidableEq

inductive Outcome (α : Type) where
  | done (a : α) (s : Session)
  | thrown (e : Exception) (s : Session)
  | stopped (why : Stop)

/-- A computation in a session. -/
def Run (α : Type) := Env → Session → Outcome α

namespace Run

variable {α β : Type}

@[always_inline, inline]
protected def pure (a : α) : Run α := fun _ s => .done a s

@[always_inline, inline]
protected def bind (x : Run α) (f : α → Run β) : Run β := fun env s =>
  match x env s with
  | .done a s => f a env s
  | .thrown e s => .thrown e s
  | .stopped why => .stopped why

@[always_inline]
instance : Monad Run where
  pure := Run.pure
  bind := Run.bind

@[always_inline, inline]
def env : Run Env := fun env s => .done env s

@[always_inline, inline]
def get : Run Session := fun _ s => .done s s

@[always_inline, inline]
def modify (f : Session → Session) : Run Unit := fun _ s => .done () (f s)

@[always_inline, inline]
def throw (e : Exception) : Run α := fun _ s => .thrown e s

@[always_inline, inline]
def stop (why : Stop) : Run α := fun _ _ => .stopped why

/-- The value or the exception that a computation ends with. -/
@[always_inline, inline]
def attempt (x : Run α) : Run (Except Exception α) := fun env s =>
  match x env s with
  | .done a s => .done (.ok a) s
  | .thrown e s => .done (.error e) s
  | .stopped why => .stopped why

/-- Change the session after a computation, whether that ends with a value or with an exception. -/
@[always_inline, inline]
def ensuring (x : Run α) (f : Session → Session) : Run α := fun env s =>
  match x env s with
  | .done a s => .done a (f s)
  | .thrown e s => .thrown e (f s)
  | .stopped why => .stopped why

@[always_inline, inline]
def ofExcept : Except Exception α → Run α
  | .ok a => Run.pure a
  | .error e => throw e

/-- Run an operation on the heap of the session. -/
@[always_inline, inline]
def onHeap (op : HeapM α) : Run (Except OutOfMemory α) := fun _ s =>
  let ⟨heap, global, stack, consts, microtasks, scripts, profiler, console, depth⟩ := s
  let (result, heap) := op.run.run heap
  .done result ⟨heap, global, stack, consts, microtasks, scripts, profiler, console, depth⟩

/-- Repeat a step until it gives a result, `n` times at most. -/
def iterate (step : Run (Option α)) : (n : Nat) → Env → Session → Outcome α
  | 0, _, _ => .stopped .outOfFuel
  | n + 1, env, s =>
    match step env s with
    | .done (some a) s => .done a s
    | .done none s => iterate step n env s
    | .thrown e s => .thrown e s
    | .stopped why => .stopped why

/-- Repeat a step until it gives a result. -/
def untilSome (step : Run (Option α)) : Run α := fun env s => iterate step env.fuel env s

def write (stream : Stream) (text : String) : Run Unit :=
  modify fun s => { s with console := s.console.write stream text }

/-- The text of a source. -/
def load (name : String) : Run (Except LoadError String) := do
  match (← env).sources name with
  | some answer => return answer
  | none => stop (.unread name)

end Run

namespace Session

def script? (s : Session) (id : ScriptId) : Option Script :=
  s.scripts[id.index]?

/-- The scope of the running call; at top level there is none. -/
def scope? (s : Session) : Option ObjectId :=
  s.stack.current?.bind Frame.scope

def currentScript? (s : Session) : Option ScriptId :=
  s.stack.current?.map Frame.script

def roots (s : Session) : Roots where
  global := s.global
  scopes := s.stack.frames.toList.filterMap Frame.scope
  microtasks := s.microtasks

end Session
end ScriptHost
