import ScriptHost.Report
import ScriptHost.Session.Display

/-!
This module contains exceptions as scripts raise them: their traces, the values that handlers see, and
their reports.
-/

namespace ScriptHost

namespace Session

/-- A trace names this many calls at most. -/
def traceLimit : Nat := 10

def traceLine (s : Session) (frame : Frame) (loc : Location) : String :=
  let origin := ((s.script? frame.script).map Script.origin).getD "<unknown>"
  let place := origin ++ ":" ++ toString loc.line ++ ":" ++ toString loc.column
  if frame.functionName.isEmpty then "\n    at " ++ place
  else "\n    at " ++ frame.functionName ++ " (" ++ place ++ ")"

/--
The lines for frames that run inside out, the first of them at `loc` and each other one at the place of
the call before it. A frame that was not called from a script is the last one.
-/
def traceLines (s : Session) : List Frame → Option Location → List String
  | frame :: frames, some loc => s.traceLine frame loc :: s.traceLines frames frame.callSite
  | _, _ => []

/-- A headline and the calls that are running at `loc`, innermost first. -/
def trace (s : Session) (headline : String) (loc : Location) : String :=
  let frames := s.stack.frames.toList.reverse.take traceLimit
  (s.traceLines frames (some loc)).foldl (· ++ ·) headline

def site? (s : Session) (loc : Location) : Option Site :=
  s.currentScript?.map fun script => ⟨script, loc⟩

/-- The exception of a failure in the running script. -/
def exception (s : Session) (cause : Cause) (loc : Location) : Exception :=
  ⟨⟨cause, loc⟩, s.site? loc, some (s.trace cause.headline loc)⟩

/-- The trace that an error object got when it was made. -/
def errorTrace? (s : Session) (v : Value) : Option String :=
  match v with
  | .object id =>
    match s.heap.content id with
    | .error _ => (s.heap.property? id "stack").bind Value.string?
    | _ => none
  | _ => none

/-- The place that a report on an exception shows. -/
def reportSite? (s : Session) (e : Exception) : Option ReportSite :=
  e.site.bind fun site => (s.script? site.script).map fun script =>
    ⟨script.origin, site.loc, (script.line? site.loc.line).getD ""⟩

end Session

namespace Heap

/-- A new error object with its message, and with its trace if there is one. -/
def newError (c : ErrorClass) (message : String) (trace : Option String) : HeapM ObjectId := do
  let id ← allocate (.error c)
  setProperty id "message" (.string message)
  match trace with
  | some trace => setProperty id "stack" (.string trace)
  | none => pure ()
  return id

end Heap

namespace Run

variable {α : Type}

/-- Fail at a place in the running script. -/
def raise (cause : Cause) (loc : Location) : Run α := do
  throw ((← get).exception cause loc)

/-- Run an operation on the heap for the place `loc`, where a failure of it shows. -/
@[inline]
def heap (loc : Location) (op : HeapM α) : Run α := do
  match ← onHeap op with
  | .ok a => return a
  | .error e => raise (.host .rangeError e.message) loc

/-- Throw a value. -/
def throwValue (v : Value) (loc : Location) : Run α := do
  let text ← display v
  let s ← get
  throw ⟨⟨.thrown v text, loc⟩, s.site? loc, s.errorTrace? v⟩

/-- The value that a handler sees: the thrown one, or a new error object. -/
def exceptionValue (e : Exception) : Run Value := do
  match e.fault.cause with
  | .thrown v _ => return v
  | cause =>
    let c := cause.errorClass?.getD .error
    return .object (← heap e.fault.loc (Heap.newError c cause.message e.trace))

/-- Write the report on an exception. -/
def report (e : Exception) : Run Unit := do
  let s ← get
  write .err (renderReport e.message (s.reportSite? e) e.trace)

end Run
end ScriptHost
