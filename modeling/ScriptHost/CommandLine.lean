import ScriptHost.Config
import ScriptHost.Text.Digits

/-!
This module contains the arguments of the program: files to run and options that set a limit. An option
takes its value from behind an equals sign or from the next argument. Arguments are complete only when
the next one starts, so a fault of an option shows after an unknown option right behind it.
-/

namespace ScriptHost

/-- Why arguments do not start a session. -/
inductive UsageError where
  | displayHelp
  | displayVersion
  | unknownArgument
  /-- An option has no value, or a file has no name. -/
  | invalidValue
  /-- The value of an option is no whole number of 64 bits. -/
  | valueValidation
  /-- An option is given twice. -/
  | argumentConflict
  /-- A flag has a value. -/
  | tooManyValues
deriving DecidableEq

/-- The limits that options set. -/
inductive Setting where
  | maxCallDepth
  | maxExpressionDepth
  | heapLimit
  | maxLineLength
deriving DecidableEq

namespace Setting

def all : List Setting := [maxCallDepth, maxExpressionDepth, heapLimit, maxLineLength]

def flag : Setting → String
  | maxCallDepth => "max-call-depth"
  | maxExpressionDepth => "max-expression-depth"
  | heapLimit => "heap-limit"
  | maxLineLength => "max-line-length"

/-- The environment variable that the setting is taken from if no option gives it. -/
def variableName : Setting → String
  | maxCallDepth => "SPECTRE_MAX_CALL_DEPTH"
  | maxExpressionDepth => "SPECTRE_MAX_EXPRESSION_DEPTH"
  | heapLimit => "SPECTRE_HEAP_LIMIT"
  | maxLineLength => "SPECTRE_MAX_LINE_LENGTH"

def apply (s : Setting) (value : Nat) (c : Config) : Config :=
  match s with
  | maxCallDepth => { c with maxCallDepth := value }
  | maxExpressionDepth => { c with maxExpressionDepth := value }
  | heapLimit => { c with heapLimit := value }
  | maxLineLength => { c with maxLineLength := value }

def readValue (text : String) : Except UsageError Nat :=
  match Text.readNat? UInt64.size text with
  | some n => .ok n
  | none => .error .valueValidation

end Setting

/-- The files to run, and the options that were given. -/
structure CommandLine where
  files : List String := []
  settings : List (Setting × Nat) := []
deriving DecidableEq

namespace CommandLine

/-- Arguments that are not complete yet. -/
inductive Pending where
  | setting (s : Setting) (value : Option String)
  | files (names : List String)

structure State where
  line : CommandLine := {}
  pending : Option Pending := none
  /-- Whether `--` has ended the options. -/
  filesOnly : Bool := false

namespace State

def set (st : State) (s : Setting) (value : String) : Except UsageError State := do
  if (st.line.settings.lookup s).isSome then
    throw .argumentConflict
  let n ← Setting.readValue value
  return { st with line := { st.line with settings := st.line.settings ++ [(s, n)] } }

/-- Complete the pending arguments. -/
def complete (st : State) : Except UsageError State :=
  let rest := { st with pending := none }
  match st.pending with
  | none => .ok rest
  | some (.setting s (some value)) => rest.set s value
  | some (.setting _ none) => .error .invalidValue
  | some (.files names) =>
    if names.contains "" then .error .invalidValue
    else .ok { rest with line := { rest.line with files := rest.line.files ++ names } }

/-- A flag that ends the reading, unless the arguments before it are at fault. -/
def stop (st : State) (e : UsageError) : Except UsageError State := do
  discard st.complete
  throw e

def longFlag (st : State) (text : String) : Except UsageError State := do
  let name := String.ofList (text.toList.takeWhile (· ≠ '='))
  let value? := match text.toList.dropWhile (· ≠ '=') with
    | _ :: value => some (String.ofList value)
    | [] => none
  match Setting.all.find? (·.flag == name), value? with
  | some s, some value => (← st.complete).set s value
  | some s, none => return { ← st.complete with pending := some (.setting s none) }
  | none, value? =>
    let stops : Option UsageError :=
      if name = "help" then some .displayHelp
      else if name = "version" then some .displayVersion
      else none
    match stops, value? with
    | some e, none => st.stop e
    | some _, some _ => throw .tooManyValues
    | none, _ => throw .unknownArgument

/-- Of a cluster of short flags the first one counts, as none takes a value. -/
def shortFlags (st : State) : List Char → Except UsageError State
  | 'h' :: _ => st.stop .displayHelp
  | 'V' :: _ => st.stop .displayVersion
  | _ => throw .unknownArgument

def file (st : State) (name : String) : Except UsageError State := do
  match st.pending with
  | some (.files names) => return { st with pending := some (.files (names ++ [name])) }
  | _ => return { ← st.complete with pending := some (.files [name]) }

def argument (st : State) (arg : String) : Except UsageError State :=
  if st.filesOnly then st.file arg
  else
    match arg.toList with
    | ['-', '-'] => .ok { st with filesOnly := true }
    | '-' :: '-' :: flag => st.longFlag (String.ofList flag)
    | '-' :: c :: flags => st.shortFlags (c :: flags)
    | _ =>
      match st.pending with
      | some (.setting s none) => .ok { st with pending := some (.setting s (some arg)) }
      | _ => st.file arg

end State

def ofArguments (args : List String) : Except UsageError CommandLine := do
  let st ← args.foldlM State.argument {}
  return (← st.complete).line

/-- The limits with the options in place. -/
def config (c : CommandLine) (default : Config) : Config :=
  c.settings.foldl (fun config (s, n) => s.apply n config) default

end CommandLine
end ScriptHost
