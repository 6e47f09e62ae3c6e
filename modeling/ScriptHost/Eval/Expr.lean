import ScriptHost.Eval.Place

/-!
This module contains the rules for expressions. Operands are evaluated from left to right.
-/

namespace ScriptHost

namespace Eval

/-- An expression as it stands in the complaint that it is no function. -/
def calleeText : Expr → String
  | .name name _ => name
  | .member object property _ => calleeText object ++ "." ++ property
  | .index object key _ => calleeText object ++ "[" ++ calleeText key ++ "]"
  | .number x _ => x.toText
  | .string s _ => "\"" ++ s ++ "\""
  | .call callee _ _ => calleeText callee ++ "(...)"
  | _ => "(intermediate value)"

/-- The binary operators, of which two need not evaluate their right operand. -/
def binaryExpr (ev : Evaluator) (op : BinaryOp) (left right : Expr) : Run Value := do
  let a ← ev.expr left
  match op with
  | .and => if a.truthy then ev.expr right else return a
  | .or => if a.truthy then return a else ev.expr right
  | op =>
    let b ← ev.expr right
    Run.binary op a b

/-- The operand of `typeof`, which may be a name that is not bound. -/
def typeofOperand (ev : Evaluator) : Expr → Run Value
  | .name name _ => return ((← Run.get).readVariable? name).getD .undefined
  | operand => ev.expr operand

def typeofExpr (ev : Evaluator) (operand : Expr) : Run Value := do
  let v ← typeofOperand ev operand
  return .string ((← Run.get).heap.typeName v)

/-- Store the number at a place with `step` added to it, and give the new number or the old one. -/
def update (ev : Evaluator) (target : Expr) (step : Double) (givesNew : Bool) : Run Value := do
  let place ← place ev target
  let old ← Run.toNumber (← place.read target.loc)
  let new := old.add step
  place.write (.number new) target.loc
  return .number (if givesNew then new else old)

def unaryExpr (ev : Evaluator) (op : UnaryOp) (operand : Expr) : Run Value := do
  match op with
  | .neg => return .number (← Run.toNumber (← ev.expr operand)).neg
  | .plus => return .number (← Run.toNumber (← ev.expr operand))
  | .not => return .bool !(← ev.expr operand).truthy
  | .typeof => typeofExpr ev operand
  | .preInc => update ev operand (.ofNat 1) true
  | .preDec => update ev operand (Double.ofNat 1).neg true
  | .postInc => update ev operand (.ofNat 1) false
  | .postDec => update ev operand (Double.ofNat 1).neg false

def assign (ev : Evaluator) (target value : Expr) : Run Value := do
  let place ← place ev target
  let v ← ev.expr value
  place.write v target.loc
  return v

/-- An assignment such as `x += 1`. -/
def compoundAssign (ev : Evaluator) (op : BinaryOp) (target value : Expr) : Run Value := do
  let place ← place ev target
  let old ← place.read target.loc
  let operand ← ev.expr value
  let v ← Run.binary op old operand
  place.write v target.loc
  return v

/-- An object literal. The object is there before the values of its properties. -/
def objectExpr (ev : Evaluator) (properties : List Property) (loc : Location) : Run Value := do
  let id ← Run.heap loc (Heap.allocate .ordinary)
  properties.forM fun property => do
    let v ← ev.expr property.value
    Run.heap loc (Heap.setProperty id property.key v)
  return .object id

def callExpr (ev : Evaluator) (callee : Expr) (args : List Expr) (loc : Location) : Run Value := do
  let f ← ev.expr callee
  let values ← args.mapM ev.expr
  match (← Run.get).callable? f with
  | some id => ev.call id values (some loc)
  | none => Run.raise (.notCallable (calleeText callee)) loc

/-- The rule for each kind of expression. -/
def exprRule (ev : Evaluator) (e : Expr) : Run Value := do
  match e with
  | .number x _ => return .number x
  | .string s _ => return .string s
  | .bool b _ => return .bool b
  | .null _ => return .null
  | .undefined _ => return .undefined
  | .name name loc => Run.readVariable name loc
  | .array elements loc =>
    let values ← elements.mapM ev.expr
    return .object (← Run.heap loc (Heap.allocate (.array values.toArray)))
  | .object properties loc => objectExpr ev properties loc
  | .function f => closure f
  | .binary op left right _ => binaryExpr ev op left right
  | .unary op operand _ => unaryExpr ev op operand
  | .assign target value _ => assign ev target value
  | .compound op target value _ => compoundAssign ev op target value
  | .conditional condition whenTrue whenFalse _ =>
    if (← ev.expr condition).truthy then ev.expr whenTrue else ev.expr whenFalse
  | .call callee args loc => callExpr ev callee args loc
  | .member object property loc => Run.getMember (← ev.expr object) property loc
  | .index object key loc =>
    let base ← ev.expr object
    Run.getIndex base (← ev.expr key) loc

/-- Evaluate an expression, unless too many others wait for it. -/
def expr (ev : Evaluator) (e : Expr) : Run Value := do
  let depth := (← Run.get).expressionDepth
  if (← Run.env).config.maxExpressionDepth ≤ depth then
    Run.raise .stackOverflow e.loc
  else
    Run.modify fun s => { s with expressionDepth := depth + 1 }
    Run.ensuring (exprRule ev e) fun s => { s with expressionDepth := s.expressionDepth - 1 }

end Eval
end ScriptHost
