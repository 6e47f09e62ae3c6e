import ScriptHost.Syntax.Error
import ScriptHost.Text.Letter
import ScriptHost.Text.Numeral

/-!
This module contains the division of a script into tokens. Between two tokens may stand blanks, line
comments and block comments, and before the first one a line that starts with `#!`.
-/

namespace ScriptHost

def isNameStart (c : Char) : Bool :=
  Text.isLetter c || c = '_' || c = '$'

def isNamePart (c : Char) : Bool :=
  isNameStart c || Text.isNumeral c

namespace Token

/--
What the text after a point starts with. Every piece takes the first character, and `more` counts the
characters it takes after that one.
-/
inductive Piece where
  | gap (more : Nat)
  | token (kind : TokenKind) (more : Nat)
  | fault (fault : SyntaxFault) (more : Nat)
deriving DecidableEq

/-- The number of characters up to the end of the line. -/
def restOfLine (cs : List Char) : Nat :=
  (cs.takeWhile (· ≠ '\n')).length

/-- The number of characters up to the end of the block comment that is open. -/
def restOfComment? : List Char → Option Nat
  | '*' :: '/' :: _ => some 2
  | [] => none
  | _ :: cs => (restOfComment? cs).map (· + 1)

/-- An escape that consists of `n` hexadecimal digits, or a fault and the characters it takes. -/
def scanEscape (n : Nat) (cs : List Char) : Except (SyntaxFault × Nat) Char :=
  let digits := (cs.take n).takeWhile Text.isHexDigit
  if digits.length < n then .error (.badHexEscape, min (digits.length + 1) cs.length)
  else
    let code := Text.ofHexDigits digits
    if h : code.isValidChar then .ok (Char.ofNatAux code h) else .error (.badUnicodeEscape, n)

/-- What a backslash before `c` stands for, if that takes no more characters. -/
def plainEscape (c : Char) : Option Char :=
  match c with
  | 'n' => some '\n'
  | 't' => some '\t'
  | 'r' => some '\r'
  | '0' => some '\x00'
  -- a line that ends in a backslash goes on in the next one
  | '\n' => none
  | c => some c

/--
The rest of a string literal. `body` holds its characters so far, last first, and `taken` counts the
ones read after the opening quote.
-/
def scanString (quote : Char) (cs : List Char) (body : List Char) (taken : Nat) : Piece :=
  match cs with
  | [] => .fault .malformedToken taken
  | '\\' :: [] => .fault .malformedToken (taken + 1)
  | '\\' :: e :: cs =>
    match if e = 'x' then some 2 else if e = 'u' then some 4 else none with
    | some n =>
      match scanEscape n cs with
      | .ok c => scanString quote (cs.drop n) (c :: body) (taken + 2 + n)
      | .error (fault, n) => .fault fault (taken + 2 + n)
    | none => scanString quote cs ((plainEscape e).toList ++ body) (taken + 2)
  | c :: cs =>
    if c = quote then .token (.string (String.ofList body.reverse)) (taken + 1)
    else if c = '\n' then .fault .malformedToken taken
    else scanString quote cs (c :: body) (taken + 1)
termination_by cs.length

/-- A number literal. No name may follow a decimal one. -/
def scanNumber (cs : List Char) : Piece :=
  match cs with
  | '0' :: x :: rest =>
    if x = 'x' ∨ x = 'X' then
      let digits := rest.takeWhile Text.isHexDigit
      match Double.ofHexDigits? digits with
      | some value => .token (.number value) (1 + digits.length)
      | none => .fault .malformedToken 1
    else scanDecimal cs
  | cs => scanDecimal cs
where
  scanDecimal (cs : List Char) : Piece :=
    match Decimal.scan cs with
    | some (d, n) =>
      if (cs.drop n).head?.any isNameStart then .fault .malformedToken (n - 1)
      else .token (.number d.toDouble) (n - 1)
    | none => .fault .malformedToken 0

/-- A name or a keyword. -/
def scanName (c : Char) (cs : List Char) : Piece :=
  let more := cs.takeWhile isNamePart
  let word := String.ofList (c :: more)
  match Keyword.ofText? word with
  | some k => .token (.keyword k) more.length
  | none => .token (.name word) more.length

/-- The longest symbol that a text starts with, and the number of characters after its first. -/
def scanSymbol : List Char → Option (Symbol × Nat)
  | '=' :: '=' :: '=' :: _ => some (.strictEqual, 2)
  | '!' :: '=' :: '=' :: _ => some (.strictNotEqual, 2)
  | '+' :: '+' :: _ => some (.increment, 1)
  | '+' :: '=' :: _ => some (.plusAssign, 1)
  | '-' :: '-' :: _ => some (.decrement, 1)
  | '-' :: '=' :: _ => some (.minusAssign, 1)
  | '*' :: '=' :: _ => some (.starAssign, 1)
  | '/' :: '=' :: _ => some (.slashAssign, 1)
  | '%' :: '=' :: _ => some (.percentAssign, 1)
  | '=' :: '=' :: _ => some (.equal, 1)
  | '=' :: '>' :: _ => some (.arrow, 1)
  | '!' :: '=' :: _ => some (.notEqual, 1)
  | '<' :: '=' :: _ => some (.lessEqual, 1)
  | '>' :: '=' :: _ => some (.greaterEqual, 1)
  | '&' :: '&' :: _ => some (.and, 1)
  | '|' :: '|' :: _ => some (.or, 1)
  | c :: _ => (scanSingle c).map fun s => (s, 0)
  | [] => none
where
  scanSingle : Char → Option Symbol
    | '+' => some .plus
    | '-' => some .minus
    | '*' => some .star
    | '/' => some .slash
    | '%' => some .percent
    | '=' => some .assign
    | '!' => some .not
    | '<' => some .less
    | '>' => some .greater
    | '.' => some .dot
    | '?' => some .question
    | ':' => some .colon
    | '(' => some .leftParen
    | ')' => some .rightParen
    | '{' => some .leftBrace
    | '}' => some .rightBrace
    | '[' => some .leftBracket
    | ']' => some .rightBracket
    | ';' => some .semicolon
    | ',' => some .comma
    | _ => none

/-- Whether a number literal starts here: at a digit, or at a point before a digit. -/
def startsNumber (c : Char) (cs : List Char) : Bool :=
  c.isDigit || c = '.' && cs.head?.any Char.isDigit

/-- The first piece of the text `c :: cs`. -/
def scanPiece (c : Char) (cs : List Char) : Piece :=
  if Text.isBlank c then .gap 0
  else if c = '/' ∧ cs.head? = some '/' then .gap (restOfLine cs)
  else if c = '/' ∧ cs.head? = some '*' then
    match restOfComment? (cs.drop 1) with
    | some n => .gap (1 + n)
    | none => .fault .malformedToken cs.length
  else if c = '"' ∨ c = '\'' then scanString c cs [] 0
  else if startsNumber c cs then scanNumber (c :: cs)
  else if isNameStart c then scanName c cs
  else
    match scanSymbol (c :: cs) with
    | some (s, more) => .token (.symbol s) more
    | none => .fault (.invalidCharacter c) 0

/-- The tokens of the text after the point `p`, in order behind the ones in `acc`. -/
def scanFrom (p : Cursor) (cs : List Char) (acc : Array Token) : Except SyntaxError (Array Token) :=
  match cs with
  | [] => .ok (acc.push ⟨.endOfInput, p.span 0⟩)
  | c :: cs =>
    match scanPiece c cs with
    | .gap more => scanFrom ((p.next c).after (cs.take more)) (cs.drop more) acc
    | .token kind more =>
      scanFrom ((p.next c).after (cs.take more)) (cs.drop more) (acc.push ⟨kind, p.span (more + 1)⟩)
    | .fault fault more => .error ⟨fault, p.span (more + 1)⟩
termination_by cs.length

/-- The number of characters that the `#!` line at the start of a script takes. -/
def shebangLength (cs : List Char) : Nat :=
  if cs.take 2 = ['#', '!'] then restOfLine cs else 0

/-- All tokens of a script; the last one marks its end. -/
def scan (cs : List Char) : Except SyntaxError (Array Token) :=
  let n := shebangLength cs
  scanFrom (Cursor.after {} (cs.take n)) (cs.drop n) #[]

end Token
end ScriptHost
