import ScriptHost.Text.Utf8

/-!
This module contains where the texts of scripts come from.
-/

namespace ScriptHost

/-- Why a source cannot be loaded. -/
inductive LoadError where
  | notFound (name : String)
  | unreadable (name : String)
  | invalidUtf8 (name : String)
deriving DecidableEq

namespace LoadError

def name : LoadError → String
  | notFound name | unreadable name | invalidUtf8 name => name

def message : LoadError → String
  | notFound name => "'" ++ name ++ "' not found"
  | unreadable name => "error reading '" ++ name ++ "'"
  | invalidUtf8 name => "'" ++ name ++ "' is not valid UTF-8"

end LoadError

/-- The sources that are known by name. A name without an answer has not been asked for yet. -/
abbrev Sources := String → Option (Except LoadError String)

namespace Sources

/-- Sources that are kept in memory. All other names are not found. -/
def ofList (texts : List (String × String)) : Sources := fun name =>
  match texts.lookup name with
  | some text => some (.ok text)
  | none => some (.error (.notFound name))

/-- No name has been asked for. -/
def unknown : Sources := fun _ => none

def insert (s : Sources) (name : String) (answer : Except LoadError String) : Sources := fun n =>
  if n = name then some answer else s n

end Sources

/-- The text of a file with these bytes. -/
def sourceOfBytes (name : String) (bytes : List UInt8) : Except LoadError String :=
  match Text.Utf8.decode? bytes with
  | some text => .ok text
  | none => .error (.invalidUtf8 name)

end ScriptHost
