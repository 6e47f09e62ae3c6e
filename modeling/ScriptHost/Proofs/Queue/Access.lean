import ScriptHost.Proofs.Queue.Basic

/-!
This module contains that the accesses of scripts to variables and properties, and their operators, make no
function wait and report nothing.
-/

namespace ScriptHost.Run

variable {α : Type}

theorem traced_raise (cause : Cause) (loc : Location) : Traced fun _ => (raise cause loc : Run α) :=
  traced_get.bind fun _ => traced_throw _

/-- What comes after a failure under a condition. -/
theorem traced_unless {c : Prop} [Decidable c] {cause : Cause} {loc : Location} {x : Gate → Run α}
    (hx : Traced x)
    : Traced fun gate => if c then (raise cause loc : Run PUnit) >>= fun _ => x gate else x gate :=
  .ite ((traced_raise cause loc).bind fun _ => hx) hx

theorem traced_heap (loc : Location) (op : HeapM α) : Traced fun _ => heap loc op := by
  apply (traced_onHeap op).bind
  intro r
  cases r with
  | ok a => exact traced_pure a
  | error e => exact traced_raise _ loc

theorem traced_load (name : String) : Traced fun _ => load name := by
  apply traced_env.bind
  intro env
  cases env.sources name with
  | some answer => exact traced_pure answer
  | none => exact traced_stop _

theorem traced_display (v : Value) : Traced fun _ => display v := by
  apply traced_env.bind
  intro env
  apply traced_get.bind
  intro s
  cases (s.displayContext env.config).display? [] v env.fuel with
  | some text => exact traced_pure text
  | none => exact traced_stop _

theorem traced_throwValue (v : Value) (loc : Location) : Traced fun _ => (throwValue v loc : Run α) := by
  apply (traced_display v).bind
  intro text
  exact traced_get.bind fun _ => traced_throw _

theorem traced_exceptionValue (e : Exception) : Traced fun _ => exceptionValue e := by
  unfold exceptionValue
  cases e.fault.cause with
  | thrown v text => exact traced_pure v
  | _ => exact (traced_heap _ _).bind fun _ => traced_pure _

/-! Variables. -/

theorem traced_readVariable (name : String) (loc : Location) : Traced fun _ => readVariable name loc := by
  apply traced_get.bind
  intro s
  cases s.readVariable? name with
  | some v => exact traced_pure v
  | none => exact traced_raise _ loc

theorem traced_writeVariable (name : String) (v : Value) (loc : Location)
    : Traced fun _ => writeVariable name v loc := by
  apply traced_get.bind
  intro s
  cases s.findBinding? name with
  | some place =>
    exact .ite (traced_modify fun _ => ⟨rfl, rfl⟩) (traced_raise _ loc)
  | none => exact traced_unless (traced_heap loc _)

theorem traced_declare (kind : DeclareKind) (name : String) (v : Value) (loc : Location)
    : Traced fun _ => declare kind name v loc := by
  have hconst : Traced fun _ => modify fun s => { s with consts := s.consts ++ [name] } :=
    traced_modify fun _ => ⟨rfl, rfl⟩
  apply traced_get.bind
  intro s
  cases s.scope? with
  | some scope => exact traced_heap loc _
  | none =>
    apply traced_unless
    apply (traced_onHeap _).bind
    intro r
    cases r with
    | ok _ => exact .ite (hconst.bind fun _ => traced_pure _) (traced_pure _)
    | error e => exact .ite (hconst.bind fun _ => traced_raise _ loc) (traced_raise _ loc)

theorem traced_declareVar (name : String) (loc : Location) : Traced fun _ => declareVar name loc := by
  apply traced_get.bind
  intro s
  cases s.scope? with
  | some scope => exact .ite (traced_heap loc _) (traced_pure _)
  | none => exact .ite (traced_pure _) (traced_heap loc _)

/-! Properties. -/

theorem traced_getMember (base : Value) (key : String) (loc : Location)
    : Traced fun _ => getMember base key loc := by
  cases base with
  | undefined | null => exact traced_raise _ loc
  | object id => exact traced_get.bind fun _ => traced_pure _
  | string text => exact traced_pure _
  | bool | number => exact traced_pure _

theorem traced_getIndex (base key : Value) (loc : Location) : Traced fun _ => getIndex base key loc := by
  have hmember : Traced fun _ => (do getMember base (← display key) loc) :=
    (traced_display key).bind fun text => traced_getMember base text loc
  unfold getIndex
  cases base.object? with
  | none => exact hmember
  | some id =>
    cases elementIndex? key with
    | none => exact hmember
    | some i =>
      apply traced_get.bind
      intro s
      cases s.heap.content id with
      | array elements => exact traced_pure _
      | _ => exact hmember

theorem traced_setMember (base : Value) (key : String) (v : Value) (loc : Location)
    : Traced fun _ => setMember base key v loc := by
  cases base with
  | undefined | null => exact traced_raise _ loc
  | object id =>
    apply traced_get.bind
    intro s
    cases s.heap.isArray id <;> cases arrayIndex? key <;> exact traced_heap loc _
  | bool | number | string => exact traced_pure _

theorem traced_setIndex (base key v : Value) (loc : Location) : Traced fun _ => setIndex base key v loc := by
  have hmember : Traced fun _ => (do setMember base (← display key) v loc) :=
    (traced_display key).bind fun text => traced_setMember base text v loc
  unfold setIndex
  cases base.object? with
  | none => exact hmember
  | some id =>
    cases elementIndex? key with
    | none => exact hmember
    | some i => exact traced_get.bind fun _ => .ite (traced_heap loc _) hmember

/-! Operators. -/

theorem traced_toPrimitive (v : Value) : Traced fun _ => toPrimitive v := by
  cases v with
  | object id => exact (traced_display _).bind fun _ => traced_pure _
  | _ => exact traced_pure _

theorem traced_toNumber (v : Value) : Traced fun _ => toNumber v :=
  (traced_toPrimitive v).bind fun _ => traced_pure _

theorem traced_looseEq (a b : Value) : Traced fun _ => looseEq a b := by
  unfold looseEq
  cases a.object? <;> cases b.object?
  . exact traced_pure _
  . exact .ite (traced_pure _) ((traced_toPrimitive b).bind fun _ => traced_pure _)
  . exact .ite (traced_pure _) ((traced_toPrimitive a).bind fun _ => traced_pure _)
  . exact traced_pure _

theorem traced_arithmetic (f : Double → Double → Double) (a b : Value)
    : Traced fun _ => arithmetic f a b :=
  (traced_toNumber a).bind fun _ => (traced_toNumber b).bind fun _ => traced_pure _

theorem traced_comparison (test : Option Ordering → Bool) (a b : Value)
    : Traced fun _ => comparison test a b :=
  (traced_toPrimitive a).bind fun _ => (traced_toPrimitive b).bind fun _ => traced_pure _

theorem traced_binary (op : BinaryOp) (a b : Value) : Traced fun _ => binary op a b := by
  cases op with
  | add => exact (traced_toPrimitive a).bind fun _ => (traced_toPrimitive b).bind fun _ => traced_pure _
  | sub | mul | div | mod => exact traced_arithmetic _ a b
  | eq | ne => exact (traced_looseEq a b).bind fun _ => traced_pure _
  | strictEq | strictNe | and | or => exact traced_pure _
  | lt => exact traced_comparison (· == some .lt) a b
  | gt => exact traced_comparison (· == some .gt) a b
  | le => exact traced_comparison (fun o => o == some .lt || o == some .eq) a b
  | ge => exact traced_comparison (fun o => o == some .gt || o == some .eq) a b

end ScriptHost.Run
