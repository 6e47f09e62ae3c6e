import ScriptHost.Eval

/-!
This module contains the two ways to use a session: files in order up to the first failure, and lines
from a prompt. Microtasks run after each script, before the next one is loaded.
-/

namespace ScriptHost
namespace Run

/--
Run a script. Its value is written unless it is `undefined`, its failure is reported, and both only if
asked for. The result is whether it succeeded.
-/
def execute (source origin : String) (print report : Bool) : Run Bool := do
  match ← attempt (script source origin none) with
  | .ok v =>
    if print && v != .undefined then
      write .out ((← display v) ++ "\n")
    return true
  | .error e =>
    if report then
      Run.report e
    return false

/-- Call the functions that wait, `n` of them at most. -/
def drainUpTo : (n : Nat) → (succeeded : Bool) → Run Bool
  | 0, _ => stop .outOfFuel
  | n + 1, succeeded => do
    match (← get).microtasks with
    | [] => return succeeded
    | task :: tasks =>
      modify fun s => { s with microtasks := tasks }
      match task.object? with
      | none => drainUpTo n succeeded
      | some f =>
        match ← attempt (call f []) with
        | .ok _ => drainUpTo n succeeded
        | .error e =>
          Run.report e
          drainUpTo n false

/--
Call the functions that wait, and those that come to wait meanwhile, in order. Failures are reported.
The result is whether there were none.
-/
def drain : Run Bool := do
  drainUpTo (← env).fuel true

/-- Run files in order. One that cannot be loaded is skipped, and the first failure ends the run. -/
def batch : List String → Run UInt32
  | [] => return 0
  | name :: names => do
    match ← load name with
    | .error _ =>
      write .err ("Error reading '" ++ name ++ "'\n")
      batch names
    | .ok source =>
      let executed ← execute source name false true
      let drained ← drain
      if executed && drained then batch names else return 1

end Run

namespace Shell

/-- The name of the scripts that are typed in. -/
def origin : String := "(shell)"

def lineFeed : UInt8 := 10

def carriageReturn : UInt8 := 13

/-- The lines of an input, without their line feeds. -/
def inputLines (bytes : List UInt8) : List (List UInt8) :=
  if h : bytes = [] then []
  else
    let line := bytes.takeWhile (· ≠ lineFeed)
    line :: inputLines (bytes.drop (line.length + 1))
termination_by bytes.length
decreasing_by
  have := List.length_pos_iff.2 h
  simp only [List.length_drop]
  omega

/-- The script in a line, which is cut to `maxLength` characters. -/
def lineText (maxLength : Nat) (line : List UInt8) : String :=
  let line := if line.getLast? = some carriageReturn then line.dropLast else line
  String.ofList ((Text.Utf8.decodeLossy line).toList.take maxLength)

def greet : Run Unit :=
  Run.write .err ("Welcome to Spectre " ++ version ++ "\n")

def prompt : Run Unit :=
  Run.write .err "> "

/-- Run a line that was typed in. -/
def runLine (line : List UInt8) : Run Unit := do
  let maxLength := (← Run.env).config.maxLineLength
  discard (Run.execute (lineText maxLength line) origin true true)
  discard Run.drain

/-- Leave the line of the last prompt. -/
def farewell : Run Unit :=
  Run.write .err "\n"

end Shell

/-- Prompt for lines and run them until the input ends. -/
def Run.interactive (input : List UInt8) : Run UInt32 := do
  Shell.greet
  (Shell.inputLines input).forM fun line => do
    Shell.prompt
    Shell.runLine line
  Shell.prompt
  Shell.farewell
  return 0

end ScriptHost
