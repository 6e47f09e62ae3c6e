import ScriptHost.Location
import ScriptHost.Double.Text

/-!
This module contains the tokens of a script: literals, names, keywords and symbols.
-/

namespace ScriptHost

inductive Keyword where
  | var | let | const | function | return | if | else | while | do | for | break | continue
  | throw | try | catch | finally | typeof | true | false | null | undefined
deriving DecidableEq

namespace Keyword

def all : List Keyword := [
  .var, .let, .const, .function, .return, .if, .else, .while, .do, .for, .break, .continue,
  .throw, .try, .catch, .finally, .typeof, .true, .false, .null, .undefined]

def text : Keyword → String
  | .var => "var"
  | .let => "let"
  | .const => "const"
  | .function => "function"
  | .return => "return"
  | .if => "if"
  | .else => "else"
  | .while => "while"
  | .do => "do"
  | .for => "for"
  | .break => "break"
  | .continue => "continue"
  | .throw => "throw"
  | .try => "try"
  | .catch => "catch"
  | .finally => "finally"
  | .typeof => "typeof"
  | .true => "true"
  | .false => "false"
  | .null => "null"
  | .undefined => "undefined"

/-- The keyword that a word is, if it is one. -/
def ofText? (word : String) : Option Keyword :=
  all.find? fun k => k.text == word

end Keyword

inductive Symbol where
  | plus | minus | star | slash | percent
  | equal | notEqual | strictEqual | strictNotEqual | less | lessEqual | greater | greaterEqual
  | and | or | not
  | assign | plusAssign | minusAssign | starAssign | slashAssign | percentAssign
  | increment | decrement
  | dot | question | colon | arrow
  | leftParen | rightParen | leftBrace | rightBrace | leftBracket | rightBracket
  | semicolon | comma
deriving DecidableEq

def Symbol.text : Symbol → String
  | plus => "+"
  | minus => "-"
  | star => "*"
  | slash => "/"
  | percent => "%"
  | equal => "=="
  | notEqual => "!="
  | strictEqual => "==="
  | strictNotEqual => "!=="
  | less => "<"
  | lessEqual => "<="
  | greater => ">"
  | greaterEqual => ">="
  | and => "&&"
  | or => "||"
  | not => "!"
  | assign => "="
  | plusAssign => "+="
  | minusAssign => "-="
  | starAssign => "*="
  | slashAssign => "/="
  | percentAssign => "%="
  | increment => "++"
  | decrement => "--"
  | dot => "."
  | question => "?"
  | colon => ":"
  | arrow => "=>"
  | leftParen => "("
  | rightParen => ")"
  | leftBrace => "\x7b"
  | rightBrace => "\x7d"
  | leftBracket => "["
  | rightBracket => "]"
  | semicolon => ";"
  | comma => ","

/-- What a token is, apart from its place. -/
inductive TokenKind where
  | number (value : Double)
  | string (value : String)
  | name (text : String)
  | keyword (word : Keyword)
  | symbol (symbol : Symbol)
  | endOfInput
deriving DecidableEq

structure Token where
  kind : TokenKind
  loc : Location
deriving DecidableEq

/-- What stands for a token in messages. -/
def TokenKind.shown : TokenKind → String
  | .number x => "number " ++ x.toText
  | .string s => "string \"" ++ s ++ "\""
  | .name s => "identifier '" ++ s ++ "'"
  | .keyword k => "'" ++ k.text ++ "'"
  | .symbol s => "'" ++ s.text ++ "'"
  | .endOfInput => "end of input"

end ScriptHost
