import ScriptHost.Eval.Basic

/-!
This module contains the functions of the host. A failure of one of them shows at the place of the call.
-/

namespace ScriptHost
namespace Eval

/-- Write the texts of values in one line. -/
def print (args : List Value) : Run Value := do
  let texts ← args.mapM Run.display
  Run.write .out (" ".intercalate texts ++ "\n")
  return .undefined

/-- The text of the source with the name `name`. -/
def sourceText (name : String) (loc : Location) : Run String := do
  match ← Run.load name with
  | .ok text => return text
  | .error _ => Run.raise (.host .error "Error loading file") loc

def read (args : List Value) (loc : Location) : Run Value := do
  match args with
  | [name] => return .string (← sourceText (← Run.display name) loc)
  | _ => Run.raise (.host .error "Bad parameters") loc

/-- Run sources as scripts, up to the first failure. -/
def ghostify (ev : Evaluator) (args : List Value) (loc : Location) : Run Value := do
  args.forM fun arg => do
    let name ← Run.display arg
    let source ← sourceText name loc
    discard (ev.script source name (some loc))
  return .undefined

/-- Write what a new snapshot tells about the shape of the global object. -/
def haunt (loc : Location) : Run Value := do
  let s ← Run.get
  let (report, profiler) := s.profiler.haunt s.heap s.roots
  Run.modify fun s => { s with profiler := profiler }
  match report with
  | .ok report =>
    Run.write .out (report.text ++ "\n")
    return .undefined
  | .error miss => Run.raise (.host .graphLookupMiss miss.message) loc

/-- Let a function be called after the running script. -/
def queueMicrotask (args : List Value) (loc : Location) : Run Value := do
  let task := args.headD .undefined
  match (← Run.get).callable? task with
  | some _ =>
    Run.modify fun s => { s with microtasks := s.microtasks ++ [task] }
    return .undefined
  | none =>
    Run.raise (.host .typeError "The \"callback\" argument must be of type function") loc

/-- A new error object with the trace of its making. -/
def makeError (c : ErrorClass) (args : List Value) (loc : Location) : Run Value := do
  let message ← match args with
    | [] | .undefined :: _ => pure ""
    | message :: _ => Run.display message
  let trace := (← Run.get).trace (c.headline message) loc
  return .object (← Run.heap loc (Heap.newError c message (some trace)))

def native (ev : Evaluator) (builtin : Builtin) (args : List Value) (loc : Location) :
    Run Value :=
  match builtin with
  | .print => print args
  | .read => read args loc
  | .ghostify => ghostify ev args loc
  | .haunt => haunt loc
  | .queueMicrotask => queueMicrotask args loc
  | .version => return .string version
  | .makeError c => makeError c args loc

end Eval
end ScriptHost
