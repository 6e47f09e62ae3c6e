import ScriptHost.Builtin
import ScriptHost.Location
import ScriptHost.Script
import ScriptHost.Value

/-!
This module contains the ways in which a running script can fail.
-/

namespace ScriptHost

/-- Why a script fails. -/
inductive Cause where
  /-- The text is no script. -/
  | malformed (message : String)
  | undefinedVariable (name : String)
  | readOfNullish (base property : String)
  | writeToNullish (base property : String)
  | notCallable (callee : String)
  | constAssignment
  | redeclaration (name : String)
  | stackOverflow
  /-- A failure of a builtin or of the heap. -/
  | host (c : ErrorClass) (message : String)
  /-- A value thrown by a script, and its text at that time. -/
  | thrown (value : Value) (text : String)
deriving DecidableEq

namespace Cause

/-- The class of a failure; a thrown value has none. -/
def errorClass? : Cause → Option ErrorClass
  | malformed _ | redeclaration _ => some .syntaxError
  | undefinedVariable _ => some .referenceError
  | readOfNullish .. | writeToNullish .. | notCallable _ | constAssignment => some .typeError
  | stackOverflow => some .rangeError
  | host c _ => some c
  | thrown .. => none

def message : Cause → String
  | malformed message => message
  | undefinedVariable name => name ++ " is not defined"
  | readOfNullish base property =>
    "Cannot read properties of " ++ base ++ " (reading '" ++ property ++ "')"
  | writeToNullish base property =>
    "Cannot set properties of " ++ base ++ " (setting '" ++ property ++ "')"
  | notCallable callee => callee ++ " is not a function"
  | constAssignment => "Assignment to constant variable."
  | redeclaration name => "Identifier '" ++ name ++ "' has already been declared"
  | stackOverflow => "Maximum call stack size exceeded"
  | host _ message => message
  | thrown _ text => text

/-- The message behind the class, if there is one. -/
def headline (c : Cause) : String :=
  match c.errorClass? with
  | some errorClass => errorClass.name ++ ": " ++ c.message
  | none => c.message

end Cause

structure Fault where
  cause : Cause
  loc : Location
deriving DecidableEq

/-- The place in a script where a failure shows. -/
structure Site where
  script : ScriptId
  loc : Location
deriving DecidableEq

/-- A failure on its way to a handler. -/
structure Exception where
  fault : Fault
  /-- There is no site if no script was running. -/
  site : Option Site
  /-- The headline and the calls that were running. -/
  trace : Option String
deriving DecidableEq

def Exception.message (e : Exception) : String :=
  e.fault.cause.headline

end ScriptHost
