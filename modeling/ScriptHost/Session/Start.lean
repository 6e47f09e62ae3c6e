import ScriptHost.Session.Basic

/-!
This module contains new sessions. Their global object holds the builtins, `NaN` and `Infinity`.
-/

namespace ScriptHost

namespace Heap

/-- Store the builtins as properties of an object. -/
def installBuiltins (id : ObjectId) : HeapM Unit :=
  Builtin.all.forM fun builtin => do
    let f ← allocate (.native builtin)
    setProperty id builtin.name (.object f)

/-- A global object for a new session. -/
def newGlobal : HeapM ObjectId := do
  let id ← allocate .global
  installBuiltins id
  setProperty id "NaN" (.number .nan)
  setProperty id "Infinity" (.number (.infinity false))
  return id

end Heap

/-- A new session, if its limit leaves room for the global object. -/
def Session.start (config : Config) : Except OutOfMemory Session := do
  let (global, heap) := Heap.newGlobal.run.run (.empty config.heapLimit)
  return { heap, global := ← global, stack := { maxDepth := config.maxCallDepth } }

end ScriptHost
