import ScriptHost.Syntax.Error
import Std.Data.HashSet

/-!
This module contains reading from the tokens of a script: looking at the next token, taking it, and
repeating a reader. A reader that fails does not go back.
-/

namespace ScriptHost

/-- The tokens of a script, and the positions of the parentheses that open arrow parameters. -/
structure TokenStream where
  tokens : Array Token
  arrows : Std.HashSet Nat

/--
The positions of the left parentheses whose partner has an arrow right behind it. `position` is that
of the first token, and `opened` holds the positions of the parentheses that are open before it,
innermost first.
-/
def arrowPositions (position : Nat) (opened : List Nat) : List TokenKind → List Nat
  | [] => []
  | .symbol .leftParen :: kinds => arrowPositions (position + 1) (position :: opened) kinds
  | .symbol .rightParen :: kinds =>
    match opened with
    | [] => arrowPositions (position + 1) [] kinds
    | start :: opened =>
      let later := arrowPositions (position + 1) opened kinds
      if kinds.head? = some (.symbol .arrow) then start :: later else later
  | _ :: kinds => arrowPositions (position + 1) opened kinds

def TokenStream.ofTokens (tokens : Array Token) : TokenStream :=
  ⟨tokens, .ofList (arrowPositions 0 [] (tokens.toList.map Token.kind))⟩

/-- There are end tokens without number behind the last token. -/
def TokenStream.get (s : TokenStream) (position : Nat) : Token :=
  s.tokens.getD position ⟨.endOfInput, {}⟩

/-- A reader of tokens; its state is the position of the next one. -/
abbrev Parser := ReaderT TokenStream (StateT Nat (Except SyntaxError))

namespace Parser

def peek : Parser Token := do
  return (← read).get (← get)

/-- The token after the next one. -/
def peekSecond : Parser Token := do
  return (← read).get ((← get) + 1)

/-- The token that was taken last, or the first one if there is none. -/
def previous : Parser Token := do
  return (← read).get ((← get) - 1)

def location : Parser Location := do
  return (← peek).loc

def fail (fault : SyntaxFault) (loc : Location) : Parser α :=
  throw ⟨fault, loc⟩

/-- Fail at the next token, which the grammar does not allow here. -/
def unexpected : Parser α := do
  let token ← peek
  fail (.unexpected token.kind) token.loc

def atEnd : Parser Bool := do
  return (← peek).kind = .endOfInput

/-- The end of the input is never taken. -/
def advance : Parser Unit := do
  unless ← atEnd do
    modify (· + 1)

def check (kind : TokenKind) : Parser Bool := do
  return (← peek).kind = kind

def checkSymbol (s : Symbol) : Parser Bool :=
  check (.symbol s)

/-- Take the next token if it is of this kind. -/
def accept (kind : TokenKind) : Parser Bool := do
  if ← check kind then
    advance
    return true
  else
    return false

def acceptSymbol (s : Symbol) : Parser Bool :=
  accept (.symbol s)

def acceptKeyword (k : Keyword) : Parser Bool :=
  accept (.keyword k)

def expect (kind : TokenKind) : Parser Unit := do
  unless ← accept kind do
    unexpected

def expectSymbol (s : Symbol) : Parser Unit :=
  expect (.symbol s)

def expectKeyword (k : Keyword) : Parser Unit :=
  expect (.keyword k)

/-- Whether the next token starts on a later line than the one before it. -/
def lineBreakBefore : Parser Bool := do
  let position ← get
  return 0 < position && (← previous).loc.line < (← location).line

/--
The end of a statement. The semicolon may be missing before a closing brace, at the end of the input
and at the end of a line.
-/
def semicolon : Parser Unit := do
  unless ← acceptSymbol .semicolon do
    unless (← checkSymbol .rightBrace) || (← atEnd) || (← lineBreakBefore) do
      unexpected

def name : Parser String := do
  match (← peek).kind with
  | .name s =>
    advance
    return s
  | _ => unexpected

/-- A property may be named by a keyword too. -/
def propertyName : Parser String := do
  match (← peek).kind with
  | .name s =>
    advance
    return s
  | .keyword k =>
    advance
    return k.text
  | _ => unexpected

/-- How often a reader that takes tokens can run at most. -/
def remaining : Parser Nat := do
  return (← read).tokens.size - (← get) + 1

/-- Run `item` as long as `more` holds. Every item takes a token, so the tokens bound the number of items. -/
def many (more : Parser Bool) (item : Parser α) : Parser (List α) := do
  go (← remaining) #[]
where
  go : Nat → Array α → Parser (List α)
    | 0, items => return items.toList
    | fuel + 1, items => do
      if ← more then
        go fuel (items.push (← item))
      else
        return items.toList

/-- Items with commas between them, of which there is at least one. -/
def commaSeparated (item : Parser α) : Parser (List α) := do
  let first ← item
  return first :: (← many (acceptSymbol .comma) item)

/-- Items up to a closing symbol, which is not taken. A comma may follow the last item. -/
def listUntil (close : Symbol) (item : Parser α) : Parser (List α) := do
  go (← remaining) #[]
where
  go : Nat → Array α → Parser (List α)
    | 0, items => return items.toList
    | fuel + 1, items => do
      if ← checkSymbol close then
        return items.toList
      let items := items.push (← item)
      if ← acceptSymbol .comma then
        go fuel items
      else
        return items.toList

end Parser
end ScriptHost
