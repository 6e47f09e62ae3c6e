import ScriptHost.CommandLine
import ScriptHost.Session.Start
import ScriptHost.Shell

/-!
This module contains the program: it runs the files that are named by its arguments, or lines from its
input if there are none.
-/

namespace ScriptHost
namespace Main

/-- More than any run can use. -/
def fuel : Nat := 0x4000000000000000

def readSource (name : String) : IO (Except LoadError String) := do
  try
    return sourceOfBytes name (← IO.FS.readBinFile name).toList
  catch e =>
    match e with
    | .noFileOrDirectory .. => return .error (.notFound name)
    | _ => return .error (.unreadable name)

def printChunk (c : Chunk) : IO Unit :=
  match c.stream with
  | .out => IO.print c.text
  | .err => IO.eprint c.text

/--
Run in a session and print what is written. A run that asks for a file starts again when the file has
been read.
-/
partial def perform {α : Type} (config : Config) (sources : Sources) (x : Run α) (s : Session) :
    IO (α × Session) := do
  match x ⟨config, sources, fuel⟩ s with
  | .done a s =>
    s.console.forM printChunk
    (← IO.getStdout).flush
    return (a, { s with console := #[] })
  | .thrown e _ => throw (IO.userError e.message)
  | .stopped (.unread name) =>
    perform config (sources.insert name (← readSource name)) x s
  | .stopped .outOfFuel => throw (IO.userError "out of fuel")

def runFiles (config : Config) : List String → Session → IO UInt32
  | [], _ => return 0
  | name :: names, s => do
    let (status, s) ← perform config .unknown (Run.batch [name]) s
    if status = 0 then runFiles config names s else return status

/-- The next line of an input without its line feed, or `none` at the end of the input. -/
partial def readLine? (input : IO.FS.Stream) (line : ByteArray) : IO (Option ByteArray) := do
  match (← input.read 1)[0]? with
  | none => return if line.isEmpty then none else some line
  | some byte =>
    if byte = Shell.lineFeed then return some line else readLine? input (line.push byte)

partial def runLines (config : Config) (input : IO.FS.Stream) (s : Session) : IO Unit := do
  let (_, s) ← perform config .unknown Shell.prompt s
  match ← readLine? input .empty with
  | none => discard (perform config .unknown Shell.farewell s)
  | some line =>
    let (_, s) ← perform config .unknown (Shell.runLine line.toList) s
    runLines config input s

def runShell (config : Config) (s : Session) : IO UInt32 := do
  let (_, s) ← perform config .unknown Shell.greet s
  runLines config (← IO.getStdin) s
  return 0

/-- The limits that the environment sets. -/
def environmentConfig : IO (Except UsageError Config) := do
  let mut config : Config := {}
  for setting in Setting.all do
    if let some text := ← IO.getEnv setting.variableName then
      match Setting.readValue text with
      | .ok value => config := setting.apply value config
      | .error e => return .error e
  return .ok config

def usage : String :=
  "Usage: spectre [OPTIONS] [FILES]...\n"
    ++ String.join (Setting.all.map fun setting => "  --" ++ setting.flag ++ " <NUMBER>\n")

/-- Tell why no session starts. -/
def refuse (e : UsageError) : IO UInt32 := do
  match e with
  | .displayHelp =>
    IO.print usage
    return 0
  | .displayVersion =>
    IO.println ("spectre " ++ version)
    return 0
  | _ =>
    IO.eprint usage
    return 2

def run (line : CommandLine) (config : Config) : IO UInt32 := do
  match Session.start config with
  | .error e =>
    IO.eprintln e.message
    return 1
  | .ok s => if line.files.isEmpty then runShell config s else runFiles config line.files s

end Main
end ScriptHost

open ScriptHost in
def main (args : List String) : IO UInt32 := do
  match CommandLine.ofArguments args, ← Main.environmentConfig with
  | .error e, _ | .ok _, .error e => Main.refuse e
  | .ok line, .ok config => Main.run line (line.config config)
