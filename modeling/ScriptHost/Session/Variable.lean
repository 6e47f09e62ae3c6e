import ScriptHost.Session.Failure

/-!
This module contains the variables of scripts. A name is looked up in the scope of the running call, in
the scopes around it and at last among the properties of the global object.
-/

namespace ScriptHost

namespace Heap

/--
The binding of a name in a scope or one around it, as the scope and the position in it. A scope is always
older than the scopes inside it.
-/
def findBinding? (h : Heap) (name : String) (id : ObjectId) : Option (ObjectId × Nat) :=
  match h.bindingIndex? id name with
  | some i => some (id, i)
  | none =>
    match h.content id with
    | .scope (some parent) _ =>
      if parent.index < id.index then findBinding? h name parent else none
    | _ => none
termination_by id.index

def binding? (h : Heap) (id : ObjectId) (i : Nat) : Option Binding :=
  match h.content id with
  | .scope _ bindings => bindings[i]?
  | _ => none

def assignBinding (h : Heap) (id : ObjectId) (i : Nat) (value : Value) : Heap :=
  h.modifyContent id (.mapBindings fun bindings => bindings.modify i fun b => { b with value := value })

end Heap

namespace Session

def findBinding? (s : Session) (name : String) : Option (ObjectId × Nat) :=
  s.scope?.bind (s.heap.findBinding? name)

def readVariable? (s : Session) (name : String) : Option Value :=
  match s.findBinding? name with
  | some (id, i) => (s.heap.binding? id i).map Binding.value
  | none => s.heap.property? s.global name

end Session

namespace Run

def readVariable (name : String) (loc : Location) : Run Value := do
  match (← get).readVariable? name with
  | some v => return v
  | none => raise (.undefinedVariable name) loc

/-- Assign to a variable. A name that is bound nowhere becomes a global variable. -/
def writeVariable (name : String) (value : Value) (loc : Location) : Run Unit := do
  let s ← get
  match s.findBinding? name with
  | some (id, i) =>
    if ((s.heap.binding? id i).map Binding.mutable).getD false then
      modify fun s => { s with heap := s.heap.assignBinding id i value }
    else
      raise .constAssignment loc
  | none =>
    if s.consts.contains name then
      raise .constAssignment loc
    heap loc (Heap.setProperty s.global name value)

/--
Bind a name in the running scope. At top level a constant stays one, even if there is no memory for its
value.
-/
def declare (kind : DeclareKind) (name : String) (value : Value) (loc : Location) : Run Unit := do
  let s ← get
  match s.scope? with
  | some scope => heap loc (Heap.declare scope name value (kind ≠ .const))
  | none =>
    if s.consts.contains name then
      raise (.redeclaration name) loc
    let result ← onHeap (Heap.setProperty s.global name value)
    if kind = .const then
      modify fun s => { s with consts := s.consts ++ [name] }
    match result with
    | .ok _ => return
    | .error e => raise (.host .rangeError e.message) loc

/-- Bind a name in the running scope, unless it is bound there. -/
def declareVar (name : String) (loc : Location) : Run Unit := do
  let s ← get
  match s.scope? with
  | some scope =>
    if (s.heap.bindingIndex? scope name).isNone then
      heap loc (Heap.declare scope name .undefined true)
  | none =>
    unless s.heap.hasProperty s.global name do
      heap loc (Heap.setProperty s.global name .undefined)

end Run
end ScriptHost
