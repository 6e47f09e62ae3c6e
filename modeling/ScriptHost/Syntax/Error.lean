import ScriptHost.Token.Basic

/-!
This module contains the ways in which a text can fail to be a script.
-/

namespace ScriptHost

inductive SyntaxFault where
  | invalidCharacter (c : Char)
  | malformedToken
  | badHexEscape
  | badUnicodeEscape
  | unexpected (kind : TokenKind)
  | nestedTooDeep
  | illegalReturn
  | illegalBreak
  | illegalContinue
  | newlineAfterThrow
  | missingInitializer
  | missingHandler
  | duplicateParameter
  | invalidAssignmentTarget
  | invalidPrefixTarget
  | invalidPostfixTarget
deriving DecidableEq

namespace SyntaxFault

/-- The complaint about a token that the grammar does not allow where it stands. -/
def unexpectedMessage : TokenKind → String
  | .number _ => "Unexpected number"
  | .string _ => "Unexpected string"
  | .name s => "Unexpected identifier '" ++ s ++ "'"
  | .endOfInput => "Unexpected end of input"
  | kind => "Unexpected token " ++ kind.shown

def message : SyntaxFault → String
  | invalidCharacter c => "Invalid or unexpected token '" ++ c.toString ++ "'"
  | malformedToken => "Invalid or unexpected token"
  | badHexEscape => "Invalid hexadecimal escape sequence"
  | badUnicodeEscape => "Invalid Unicode escape sequence"
  | unexpected kind => unexpectedMessage kind
  | nestedTooDeep => "Maximum call stack size exceeded"
  | illegalReturn => "Illegal return statement"
  | illegalBreak => "Illegal break statement"
  | illegalContinue => "Illegal continue statement: no surrounding iteration statement"
  | newlineAfterThrow => "Illegal newline after throw"
  | missingInitializer => "Missing initializer in const declaration"
  | missingHandler => "Missing catch or finally after try"
  | duplicateParameter => "Duplicate parameter name not allowed in this context"
  | invalidAssignmentTarget => "Invalid left-hand side in assignment"
  | invalidPrefixTarget => "Invalid left-hand side expression in prefix operation"
  | invalidPostfixTarget => "Invalid left-hand side expression in postfix operation"

end SyntaxFault

/-- A fault and the place where it shows. -/
structure SyntaxError where
  fault : SyntaxFault
  loc : Location
deriving DecidableEq

end ScriptHost
