/-!
This module contains the names of what the host offers to scripts: its error classes and functions.
-/

namespace ScriptHost

/-- The classes of errors that scripts can tell apart. -/
inductive ErrorClass where
  | error
  | syntaxError
  | referenceError
  | typeError
  | rangeError
  | graphLookupMiss
deriving DecidableEq, Inhabited

namespace ErrorClass

def name : ErrorClass → String
  | error => "Error"
  | syntaxError => "SyntaxError"
  | referenceError => "ReferenceError"
  | typeError => "TypeError"
  | rangeError => "RangeError"
  | graphLookupMiss => "GraphLookupMiss"

/-- The headline of an error with a message, which may be empty. -/
def headline (c : ErrorClass) (message : String) : String :=
  if message.isEmpty then c.name else c.name ++ ": " ++ message

end ErrorClass

/-- The functions of the host. -/
inductive Builtin where
  | print
  | read
  | ghostify
  | haunt
  | queueMicrotask
  | version
  | makeError (c : ErrorClass)
deriving DecidableEq

namespace Builtin

/-- The builtins in the order of their installation. -/
def all : List Builtin := [
  print, read, ghostify, haunt, queueMicrotask, version,
  makeError .error, makeError .typeError, makeError .rangeError, makeError .referenceError,
  makeError .syntaxError]

/-- The name of the global variable that holds the builtin. -/
def name : Builtin → String
  | print => "print"
  | read => "read"
  | ghostify => "ghostify"
  | haunt => "haunt"
  | queueMicrotask => "queueMicrotask"
  | version => "version"
  | makeError c => c.name

end Builtin

/-- The version of the host. -/
def version : String := "0.1.0"

end ScriptHost
