import ScriptHost.Session.Basic

/-!
This module contains the text of values as scripts see it, with a look into objects. The elements of an
array stand between commas; an array inside itself is empty, and so is one below too many others. An
error shows its message, whatever value that is.
-/

namespace ScriptHost

/-- What the text of an object is taken from. -/
structure DisplayContext where
  heap : Heap
  scripts : Array Script
  /-- How many arrays may stand inside each other. -/
  maxDepth : Nat

namespace DisplayContext

/-- The text of a function is its source. -/
def functionText (c : DisplayContext) (f : Function) (script : ScriptId) : String :=
  match c.scripts[script.index]? with
  | some script => script.slice f.loc.offset f.loc.len
  | none => "function () \x7b [code] \x7d"

/--
The text of a value inside the arrays `visiting`, or `none` if objects stand inside each other deeper
than `fuel`.
-/
def display? (c : DisplayContext) (visiting : List ObjectId) (v : Value) : (fuel : Nat) → Option String
  | 0 => none
  | fuel + 1 =>
    match v with
    | .object id =>
      match c.heap.content id with
      | .array elements =>
        if visiting.contains id || c.maxDepth ≤ visiting.length then some ""
        else do
          let texts ← elements.toList.mapM fun element =>
            if element.isNullish then some "" else c.display? (id :: visiting) element fuel
          return ",".intercalate texts
      | .closure f _ script => some (c.functionText f script)
      | .native builtin => some ("function " ++ builtin.name ++ "() \x7b [native code] \x7d")
      | .error errorClass => do
        let message ← match c.heap.property? id "message" with
          | some message => c.display? visiting message fuel
          | none => some ""
        return errorClass.headline message
      | .global => some "[object global]"
      | .ordinary | .scope .. => some "[object Object]"
    | v => some v.toText

end DisplayContext

namespace Session

def displayContext (s : Session) (config : Config) : DisplayContext :=
  ⟨s.heap, s.scripts, config.maxExpressionDepth⟩

end Session

/-- The text of a value. -/
def Run.display (v : Value) : Run String := do
  let env ← Run.env
  match ((← Run.get).displayContext env.config).display? [] v env.fuel with
  | some text => return text
  | none => Run.stop .outOfFuel

end ScriptHost
