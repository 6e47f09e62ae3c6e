import ScriptHost.Text.Lines

/-!
This module contains what a session writes, in order: results on one stream, reports and prompts on
the other.
-/

namespace ScriptHost

inductive Stream where
  | out | err
deriving DecidableEq

/-- What was written at once. -/
structure Chunk where
  stream : Stream
  text : String
deriving DecidableEq

abbrev Console := Array Chunk

namespace Console

def write (c : Console) (stream : Stream) (text : String) : Console :=
  c.push ⟨stream, text⟩

/-- Everything that was written to a stream. -/
def text (c : Console) (stream : Stream) : String :=
  c.foldl (fun s chunk => if chunk.stream = stream then s ++ chunk.text else s) ""

def lines (c : Console) (stream : Stream) : List String :=
  Text.splitLines (c.text stream)

end Console
end ScriptHost
