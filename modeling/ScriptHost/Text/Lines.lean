/-!
This module contains the lines of a text. A line ends with a line feed, and a carriage return right
before that line feed belongs to the line end too. The last line needs no line feed, and nothing
after the last line feed is no line.
-/

namespace ScriptHost.Text

/-- The text from the start of its `n`-th line on, counted from zero. -/
def fromLine : List Char → Nat → List Char
  | cs, 0 => cs
  | [], _ + 1 => []
  | c :: cs, n + 1 => if c = '\n' then fromLine cs n else fromLine cs (n + 1)

/-- The line without the carriage return it may end with. -/
def dropReturn (line : List Char) : List Char :=
  if line.getLast? = some '\r' then line.dropLast else line

/-- The first line of a text that is not empty. -/
def firstLine (cs : List Char) : List Char :=
  let line := cs.takeWhile (· ≠ '\n')
  if '\n' ∈ cs then dropReturn line else line

/-- The `n`-th line of a text, counted from one. -/
def line? (cs : List Char) (n : Nat) : Option (List Char) :=
  if n = 0 then none
  else
    match fromLine cs (n - 1) with
    | [] => none
    | rest => some (firstLine rest)

/-- The pieces of a text between its line feeds, less an empty last one. -/
def splitLines (s : String) : List String :=
  let pieces := s.splitOn "\n"
  if pieces.getLast? = some "" then pieces.dropLast else pieces

end ScriptHost.Text
