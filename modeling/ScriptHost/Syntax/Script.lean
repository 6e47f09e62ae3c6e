import ScriptHost.Syntax.Grammar.Stmt
import ScriptHost.Token.Scan

/-!
This module contains the reading of whole scripts.
-/

namespace ScriptHost

namespace Grammar

/-- The rules that run inside one more level of nesting than `lower` allows. -/
def above (lower : Option Grammar) : Grammar where
  statement := statementRule lower
  assignment := assignmentRule lower
  unary := unaryRule lower
  operand := operandRule lower
  access := accessRule lower

/-- The grammar for constructs that may nest `levels` deep. -/
def ofLevels : Nat → Option Grammar
  | 0 => none
  | levels + 1 => some (above (ofLevels levels))

/-- The deepest nesting of statements and expressions in a script. -/
def maxNesting : Nat := 1000

def script : Parser (List Stmt) :=
  Parser.many (do return !(← Parser.atEnd)) (nestedStatement (ofLevels maxNesting) {})

end Grammar

/-- The statements of a script. -/
def parse (source : String) : Except SyntaxError (List Stmt) := do
  let tokens ← Token.scan source.toList
  let (statements, _) ← (Grammar.script.run (.ofTokens tokens)).run 0
  return statements

end ScriptHost
