import ScriptHost.Sources

/-!
This module contains directories of files as sources. A relative name is a path below the directory,
an absolute one starts at the root. Both are resolved step by step: only what exists can be left again
by `..`.
-/

namespace ScriptHost

/-- The path of a directory from the root, and the files below it with their paths and bytes. -/
structure Directory where
  path : List String
  files : List (List String × List UInt8)

namespace Directory

/-- The longest name of a file, in bytes. -/
def maxNameLength : Nat := 255

/-- The longest path, in bytes. -/
def maxPathLength : Nat := 4095

/-- Each step of a path stands after a slash. -/
def pathLength (path : List String) : Nat :=
  path.foldl (fun n step => n + 1 + step.utf8ByteSize) 0

/-- The files with their paths from the root. -/
def entries (d : Directory) : List (List String × List UInt8) :=
  d.files.map fun (p, bytes) => (d.path ++ p, bytes)

def file? (d : Directory) (path : List String) : Option (List UInt8) :=
  d.entries.lookup path

/-- Whether a path leads to the directory, to one above it, or to one above some file. -/
def isDirectory (d : Directory) (path : List String) : Bool :=
  path.isPrefixOf d.path || d.entries.any fun (p, _) => path.isPrefixOf p && p != path

/-- What stands in the way of a path. -/
inductive Obstacle where
  | missing
  | unreadable

/-- The file that is reached from the directory `here` by the steps. The root lies above itself. -/
def walk (d : Directory) (here : List String) : List String → Except Obstacle (List UInt8)
  | [] => .error .unreadable
  | step :: steps =>
    if step.isEmpty || step == "." then d.walk here steps
    else if step == ".." then d.walk here.dropLast steps
    else if maxNameLength < step.utf8ByteSize then .error .unreadable
    else
      let there := here ++ [step]
      match d.file? there, steps with
      | some bytes, [] => .ok bytes
      | some _, _ :: _ => .error .unreadable
      | none, steps => if d.isDirectory there then d.walk there steps else .error .missing

/-- The length of the path that a name stands for. -/
def nameLength (d : Directory) (name : String) : Nat :=
  if name.startsWith "/" then name.utf8ByteSize else pathLength d.path + 1 + name.utf8ByteSize

def load (d : Directory) (name : String) : Except LoadError String :=
  let start := if name.startsWith "/" then [] else d.path
  if name.contains '\x00' || maxPathLength < d.nameLength name then .error (.unreadable name)
  else
    match d.walk start (name.splitOn "/") with
    | .ok bytes => sourceOfBytes name bytes
    | .error .missing => .error (.notFound name)
    | .error .unreadable => .error (.unreadable name)

def sources (d : Directory) : Sources := fun name =>
  some (d.load name)

end Directory
end ScriptHost
