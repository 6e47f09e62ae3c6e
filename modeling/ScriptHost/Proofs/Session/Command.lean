import ScriptHost.Proofs.Session.Limits

/-!
This module contains what a host can ask of a session, one command after the other. The shell is repeated here
for any evaluation of scripts in place of the usual one.
-/

namespace ScriptHost

/-- What a host asks of a session. -/
inductive Command where
  | script (source origin : String) (callSite : Option Location)
  | execute (source origin : String) (print report : Bool)
  | drain
  | batch (names : List String)
  | interactive (input : List UInt8)
  | takeSnapshot
  | releaseSnapshots

inductive Answer where
  | ended (result : Except Exception Value)
  | succeeded (b : Bool)
  | status (code : UInt32)
  | snapshot (snapshot : Snapshot)
  /-- So many snapshots were held. -/
  | released (count : Nat)

namespace Run

def takeSnapshot : Run Snapshot := do
  let s ← get
  let (snapshot, profiler) := s.profiler.take s.heap s.roots
  modify fun s => { s with profiler := profiler }
  return snapshot

def releaseSnapshots : Run Nat := do
  let profiler := (← get).profiler
  modify fun s => { s with profiler := profiler.release }
  return profiler.held.size

end Run

def Command.run : Command → Run Answer
  | script source origin callSite => return .ended (← Run.attempt (Run.script source origin callSite))
  | execute source origin print report => return .succeeded (← Run.execute source origin print report)
  | drain => return .succeeded (← Run.drain)
  | batch names => return .status (← Run.batch names)
  | interactive input => return .status (← Run.interactive input)
  | takeSnapshot => return .snapshot (← Run.takeSnapshot)
  | releaseSnapshots => return .released (← Run.releaseSnapshots)

namespace Session

/-- The outcomes of commands, up to the first one that gives no answer. -/
def outcomes (run : Command → Run Answer) (env : Env) : Session → List Command → List (Outcome Answer)
  | _, [] => []
  | s, c :: cs =>
    let outcome := run c env s
    outcome :: match outcome.session? with
      | some s' => outcomes run env s' cs
      | none => []

theorem outcomes_cons (run : Command → Run Answer) (env : Env) (s : Session) (c : Command) (cs : List Command)
    : s.outcomes run env (c :: cs)
        =
      run c env s :: match (run c env s).session? with
        | some s' => s'.outcomes run env cs
        | none => [] :=
  rfl

end Session

/-- An evaluator for every amount of fuel. -/
abbrev Evaluation :=
  Nat → Evaluator

namespace Evaluation

open Run

variable (ev : Evaluation)

def script (source origin : String) (callSite : Option Location) : Run Value := do
  (ev (← env).fuel).script source origin callSite

def call (callee : ObjectId) (args : List Value) : Run Value := do
  (ev (← env).fuel).call callee args none

def execute (source origin : String) (print report : Bool) : Run Bool := do
  match ← attempt (ev.script source origin none) with
  | .ok v =>
    if print && v != .undefined then
      write .out ((← display v) ++ "\n")
    return true
  | .error e =>
    if report then
      Run.report e
    return false

def drainUpTo : (n : Nat) → (succeeded : Bool) → Run Bool
  | 0, _ => stop .outOfFuel
  | n + 1, succeeded => do
    match (← get).microtasks with
    | [] => return succeeded
    | task :: tasks =>
      modify fun s => { s with microtasks := tasks }
      match task.object? with
      | none => drainUpTo n succeeded
      | some f =>
        match ← attempt (ev.call f []) with
        | .ok _ => drainUpTo n succeeded
        | .error e =>
          Run.report e
          drainUpTo n false

def drain : Run Bool := do
  ev.drainUpTo (← env).fuel true

def batch : List String → Run UInt32
  | [] => return 0
  | name :: names => do
    match ← load name with
    | .error _ =>
      write .err ("Error reading '" ++ name ++ "'\n")
      batch names
    | .ok source =>
      let executed ← ev.execute source name false true
      let drained ← ev.drain
      if executed && drained then batch names else return 1

def runLine (line : List UInt8) : Run Unit := do
  let maxLength := (← env).config.maxLineLength
  discard (ev.execute (Shell.lineText maxLength line) Shell.origin true true)
  discard ev.drain

def interactive (input : List UInt8) : Run UInt32 := do
  Shell.greet
  (Shell.inputLines input).forM fun line => do
    Shell.prompt
    ev.runLine line
  Shell.prompt
  Shell.farewell
  return 0

/-! With the usual evaluation, it is the shell itself. -/

theorem drainUpTo_evaluator (n : Nat) (succeeded : Bool)
    : drainUpTo evaluator n succeeded = Run.drainUpTo n succeeded := by
  induction n generalizing succeeded with
  | zero => rfl
  | succ n ih =>
    unfold drainUpTo Run.drainUpTo
    simp only [ih]
    rfl

theorem drain_evaluator : drain evaluator = Run.drain :=
  congrArg (env >>= ·) (funext fun env => drainUpTo_evaluator env.fuel true)

theorem batch_evaluator (names : List String) : batch evaluator names = Run.batch names := by
  induction names with
  | nil => rfl
  | cons name names ih =>
    unfold batch Run.batch
    rw [ih, drain_evaluator]
    rfl

theorem interactive_evaluator (input : List UInt8) : interactive evaluator input = Run.interactive input := by
  unfold interactive Run.interactive runLine Shell.runLine
  rw [drain_evaluator]
  rfl

end Evaluation

/-- A command whose scripts are evaluated in that way. -/
def Command.runBy (ev : Evaluation) : Command → Run Answer
  | script source origin callSite => return .ended (← Run.attempt (ev.script source origin callSite))
  | execute source origin print report => return .succeeded (← ev.execute source origin print report)
  | drain => return .succeeded (← ev.drain)
  | batch names => return .status (← ev.batch names)
  | interactive input => return .status (← ev.interactive input)
  | takeSnapshot => return .snapshot (← Run.takeSnapshot)
  | releaseSnapshots => return .released (← Run.releaseSnapshots)

theorem Command.runBy_evaluator : runBy evaluator = run := by
  have hanswer {α : Type} {x x' : Run α} (hx : x = x') (f : α → Answer)
      : (do return f (← x) : Run Answer) = (do return f (← x')) := by
    rw [hx]
  funext c
  cases c with
  | script | execute | takeSnapshot | releaseSnapshots => rfl
  | drain => exact hanswer Evaluation.drain_evaluator .succeeded
  | batch names => exact hanswer (Evaluation.batch_evaluator names) .status
  | interactive input => exact hanswer (Evaluation.interactive_evaluator input) .status

end ScriptHost
