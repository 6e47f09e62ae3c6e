import ScriptHost.Syntax.Script

/-!
This module contains readers with counters. Where the grammar has one set of rules for each number of nesting
levels, these readers count the levels that are taken, and the loops and functions around the next token. A
level is given back at the end of what it was taken for, the levels of a chain all at once. A reader that fails
keeps the counters as they are then.
-/

namespace ScriptHost.Counting

structure Counters where
  /-- The position of the next token. -/
  position : Nat := 0
  nesting : Nat := 0
  /-- The loops around the next token, in the innermost function. -/
  loops : Nat := 0
  functions : Nat := 0

/-- The position is that of a token, and no more levels are taken than there are. -/
structure Counters.Within (c : Counters) (s : TokenStream) : Prop where
  position_lt : c.position < s.tokens.size
  nesting_le : c.nesting ≤ Grammar.maxNesting

instance (c : Counters) (s : TokenStream) : Decidable (c.Within s) :=
  decidable_of_iff (c.position < s.tokens.size ∧ c.nesting ≤ Grammar.maxNesting)
    ⟨fun h => ⟨h.1, h.2⟩, fun h => ⟨h.1, h.2⟩⟩

/-- The jumps that a statement at the next token may contain. -/
def Counters.jumps (c : Counters) : Jumps where
  inFunction := 0 < c.functions
  inLoop := 0 < c.loops

/-- What can go wrong in a reader, apart from the faults of a script. -/
inductive Mishap where
  /-- More is taken from a counter than it has. -/
  | underflow
  /-- A counter is out of its bounds. -/
  | outOfBounds
  /-- There are more rounds of a loop, or more calls in each other, than there is fuel for. -/
  | outOfFuel
deriving DecidableEq

abbrev Reader := ReaderT TokenStream (ExceptT SyntaxError (StateT Counters (Except Mishap)))

namespace Reader

variable {α : Type}

def mishap (m : Mishap) : Reader α :=
  fun _ _ => .error m

/-- Every change of a counter is checked. -/
def change (f : Counters → Except Mishap Counters) : Reader Unit := fun s c => do
  let c ← f c
  if c.Within s then return (.ok (), c) else throw .outOfBounds

def counters : Reader Counters :=
  get

/-- A reader of the grammar that takes one token at most. -/
def token (x : Parser α) : Reader α := do
  match (x.run (← read)).run (← counters).position with
  | .ok (a, position) =>
    change fun c => return { c with position }
    return a
  | .error e => throw e

instance : MonadLift Parser Reader := ⟨token⟩

def jumps : Reader Jumps := do
  return (← counters).jumps

/-- Run a reader, and change the counters behind it even if it fails. -/
def ensuring (x : Reader α) (f : Counters → Except Mishap Counters) : Reader α := fun s c => do
  let (result, c) ← x s c
  let (_, c) ← change f s c
  return (result, c)

def minus (n k : Nat) : Except Mishap Nat :=
  if k ≤ n then return n - k else throw .underflow

/-- Give nesting levels back. -/
def leave (levels : Nat) (c : Counters) : Except Mishap Counters := do
  return { c with nesting := ← minus c.nesting levels }

/-- Take a nesting level. -/
def enter : Reader Unit := do
  if Grammar.maxNesting ≤ (← counters).nesting then
    Parser.fail .nestedTooDeep (← Parser.location)
  change fun c => return { c with nesting := c.nesting + 1 }

def nested (x : Reader α) : Reader α := do
  enter
  ensuring x (leave 1)

def inLoop (x : Reader α) : Reader α := do
  change fun c => return { c with loops := c.loops + 1 }
  ensuring x fun c => return { c with loops := ← minus c.loops 1 }

/-- The loops around a function do not count in it. -/
def inFunction (x : Reader α) : Reader α := do
  let loops := (← counters).loops
  change fun c => return { c with loops := 0, functions := c.functions + 1 }
  ensuring x fun c => return { c with loops, functions := ← minus c.functions 1 }

variable (fuel : Nat)

def many (more : Reader Bool) (item : Reader α) : Reader (List α) :=
  go fuel #[]
where
  go : Nat → Array α → Reader (List α)
    | 0, _ => mishap .outOfFuel
    | fuel + 1, items => do
      if ← more then
        go fuel (items.push (← item))
      else
        return items.toList

def commaSeparated (item : Reader α) : Reader (List α) := do
  let first ← item
  return first :: (← many fuel (Parser.acceptSymbol .comma) item)

/-- Items up to a closing symbol, which is not taken. A comma may follow the last item. -/
def listUntil (close : Symbol) (item : Reader α) : Reader (List α) :=
  go fuel #[]
where
  go : Nat → Array α → Reader (List α)
    | 0, _ => mishap .outOfFuel
    | fuel + 1, items => do
      if ← Parser.checkSymbol close then
        return items.toList
      let items := items.push (← item)
      if ← Parser.acceptSymbol .comma then
        go fuel items
      else
        return items.toList

end Reader
end ScriptHost.Counting
