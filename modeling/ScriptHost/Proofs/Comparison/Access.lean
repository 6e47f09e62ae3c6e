import ScriptHost.Proofs.Comparison.Rules
import ScriptHost.Proofs.Discipline.Access

/-!
This module contains that the accesses to variables and properties, and the operators, match in any lawful
comparison. What only reads leaves the session as it is.
-/

namespace ScriptHost.Run

variable {C : Comparison} {Excused : Exception → Prop} {s : Session} {loc : Location}

theorem matches_readVariable (name : String)
    : Matches C Excused s (Still s) (readVariable name loc) (readVariable name loc) := by
  apply matches_get
  rw [Comparison.image, s.readVariable?_raised name]
  cases s.readVariable? name with
  | some v => exact matches_pure rfl
  | none => exact matches_raise _ _

theorem matches_writeVariable (name : String) (v : Value)
    : Matches C C.Excuses s Free (writeVariable name v loc) (writeVariable name v loc) := by
  apply matches_get
  rw [Comparison.image, s.findBinding?_raised name]
  cases s.findBinding? name with
  | some place =>
    obtain ⟨id, i⟩ := place
    change Matches C C.Excuses s Free
      (if ((s.heap.binding? id i).map Binding.mutable).getD false then _ else _)
      (if ((s.heap.binding? id i).map Binding.mutable).getD false then _ else _)
    split
    . exact matches_change (fun hs => leads_withHeap (hs.mapBindings id _)) rfl
    . exact matches_raise _ _
  | none =>
    apply matches_unless
    intro _
    exact matches_heap (Heap.lifts_setProperty _ _ _) (Heap.keeps_setProperty _ _ _) loc

theorem matches_declare (kind : DeclareKind) (name : String) (v : Value)
    : Matches C C.Excuses s Free (declare kind name v loc) (declare kind name v loc) := by
  cases hscope : s.scope? with
  | some scope =>
    apply matches_get
    rw [show (C.image s).scope? = s.scope? from rfl, hscope]
    exact matches_heap (Heap.lifts_declare _ _ _ _) (Heap.keeps_declare _ _ _ _) loc
  | none =>
    by_cases hfree : name ∈ s.consts
    . have hcontains : s.consts.contains name = true := by simpa using hfree
      apply matches_get
      rw [show (C.image s).scope? = s.scope? from rfl, hscope]
      apply matches_unless
      exact fun hnot => absurd hcontains hnot
    . intro hs
      -- a constant becomes one in both sessions, be there memory for its value or not
      obtain ⟨s₁, hs₁, hout⟩ := declare_global hscope hfree kind v loc C.env
      have hscope' : (C.image s).scope? = none := hscope
      obtain ⟨s₂, hs₂, hout'⟩ := declare_global hscope' hfree kind v loc C.env'
      have hkept := Heap.keeps_setProperty s.global name v s.heap hs
      have hl : C.Leads s s₁ := by
        rw [hs₁]
        exact ⟨⟨rfl, rfl, rfl, List.prefix_rfl⟩, hkept⟩
      rw [hout, hout']
      rcases hexec : Heap.exec (Heap.setProperty s.global name v) s.heap with ⟨oom | _, h⟩
      . refine ⟨hl, ?_⟩
        by_cases hmemory : C.memory = 0
        . right
          have himage : s₂ = C.image s₁ := by
            rw [hs₁, hs₂]
            unfold Comparison.image
            rw [hmemory]
            rfl
          have hexec' : Heap.exec (Heap.setProperty (C.image s).global name v) (C.image s).heap
              = (.error oom, h) := by
            unfold Comparison.image
            rw [hmemory]
            exact hexec
          rw [hexec']
          dsimp only
          rw [himage, Comparison.image, Session.exception_raised]
        . exact .inl ⟨hmemory, rfl⟩
      . have hexec' : Heap.exec (Heap.setProperty (C.image s).global name v) (C.image s).heap
            = (.ok (), h.raised C.memory) := Heap.lifts_setProperty _ _ _ _ _ _ hexec
        rw [hexec']
        refine ⟨hl, trivial, ?_⟩
        have hheap : (Heap.Op.setProperty s.global name v).apply s.heap = h := congrArg Prod.snd hexec
        have hheap' : (Heap.Op.setProperty (C.image s).global name v).apply (C.image s).heap
            = h.raised C.memory := congrArg Prod.snd hexec'
        rw [hs₁, hs₂, hheap, hheap']
        rfl

theorem matches_declareVar (name : String)
    : Matches C C.Excuses s Free (declareVar name loc) (declareVar name loc) := by
  apply matches_get
  rw [show (C.image s).scope? = s.scope? from rfl]
  cases s.scope? with
  | some scope =>
    change Matches C C.Excuses s Free
      (if (s.heap.bindingIndex? scope name).isNone then _ else _)
      (if (s.heap.bindingIndex? scope name).isNone then _ else _)
    split
    . exact matches_heap (Heap.lifts_declare _ _ _ _) (Heap.keeps_declare _ _ _ _) loc
    . exact matches_pure trivial
  | none =>
    change Matches C C.Excuses s Free
      (if s.heap.hasProperty s.global name then _ else _)
      (if s.heap.hasProperty s.global name then _ else _)
    split
    . exact matches_pure trivial
    . exact matches_heap (Heap.lifts_setProperty _ _ _) (Heap.keeps_setProperty _ _ _) loc

theorem matches_getMember (base : Value) (key : String)
    : Matches C Excused s (Still s) (getMember base key loc) (getMember base key loc) := by
  cases base with
  | undefined | null => exact matches_raise _ _
  | object id => exact matches_get (matches_pure rfl)
  | string _ | bool _ | number _ => exact matches_pure rfl

theorem matches_setMember (base : Value) (key : String) (v : Value)
    : Matches C C.Excuses s Free (setMember base key v loc) (setMember base key v loc) := by
  cases base with
  | undefined | null => exact matches_raise _ _
  | object id =>
    apply matches_get
    rw [show (C.image s).heap.isArray id = s.heap.isArray id from rfl]
    have hproperty := matches_heap (Heap.lifts_setProperty id key v)
      (Heap.keeps_setProperty (C := C.Known s.scripts) id key v) loc
    cases s.heap.isArray id with
    | false => exact hproperty
    | true =>
      cases arrayIndex? key with
      | none => exact hproperty
      | some i => exact matches_heap (Heap.lifts_setElement _ _ _) (Heap.keeps_setElement _ _ _) loc
  | bool _ | number _ | string _ => exact matches_pure trivial

/-! What takes the text of a value. -/

variable [C.Lawful]

theorem matches_getMember_display (hc : C.IsClear s) (base key : Value)
    : Matches C Excused s (Still s) (do getMember base (← display key) loc)
        (do getMember base (← display key) loc) := by
  apply (matches_display hc key).bind
  rintro text s' _ rfl
  exact matches_getMember base text

theorem matches_getIndex (hc : C.IsClear s) (base key : Value)
    : Matches C Excused s (Still s) (getIndex base key loc) (getIndex base key loc) := by
  have hmember : Matches C Excused s (Still s) (do getMember base (← display key) loc)
      (do getMember base (← display key) loc) := matches_getMember_display hc base key
  unfold getIndex
  cases base.object? with
  | none => exact hmember
  | some id =>
    cases elementIndex? key with
    | none => exact hmember
    | some i =>
      apply matches_get
      rw [show (C.image s).heap.content id = s.heap.content id from rfl]
      cases s.heap.content id with
      | array elements => exact matches_pure rfl
      | _ => exact hmember

theorem matches_setIndex (hc : C.IsClear s) (base key v : Value)
    : Matches C C.Excuses s Free (setIndex base key v loc) (setIndex base key v loc) := by
  have hmember : Matches C C.Excuses s Free (do setMember base (← display key) v loc)
      (do setMember base (← display key) v loc) := by
    apply (matches_display hc key).bind
    rintro text s' _ rfl
    exact matches_setMember base text v
  unfold setIndex
  cases base.object? with
  | none => exact hmember
  | some id =>
    cases elementIndex? key with
    | none => exact hmember
    | some i =>
      apply matches_get
      rw [show (C.image s).heap.isArray id = s.heap.isArray id from rfl]
      split
      . exact matches_heap (Heap.lifts_setElement _ _ _) (Heap.keeps_setElement _ _ _) loc
      . exact hmember

theorem matches_toPrimitive (hc : C.IsClear s) (v : Value)
    : Matches C Excused s (Still s) (toPrimitive v) (toPrimitive v) := by
  cases v with
  | object id =>
    apply (matches_display hc _).bind
    rintro text s' _ rfl
    exact matches_pure rfl
  | _ => exact matches_pure rfl

theorem matches_toNumber (hc : C.IsClear s) (v : Value)
    : Matches C Excused s (Still s) (toNumber v) (toNumber v) := by
  apply (matches_toPrimitive hc v).bind
  rintro v s' _ rfl
  exact matches_pure rfl

theorem matches_looseEq (hc : C.IsClear s) (a b : Value)
    : Matches C Excused s (Still s) (looseEq a b) (looseEq a b) := by
  have hprimitive : ∀ v w : Value, Matches C Excused s (Still s)
      (do return (← toPrimitive v).looseEq w) (do return (← toPrimitive v).looseEq w) := by
    intro v w
    apply (matches_toPrimitive hc v).bind
    rintro v s' _ rfl
    exact matches_pure rfl
  unfold looseEq
  cases a.object? with
  | none =>
    cases b.object? with
    | none => exact matches_pure rfl
    | some id =>
      dsimp only
      split
      . exact matches_pure rfl
      . exact hprimitive b a
  | some id =>
    cases b.object? with
    | none =>
      dsimp only
      split
      . exact matches_pure rfl
      . exact hprimitive a b
    | some id' => exact matches_pure rfl

theorem matches_arithmetic (hc : C.IsClear s) (f : Double → Double → Double) (a b : Value)
    : Matches C Excused s (Still s) (arithmetic f a b) (arithmetic f a b) := by
  apply (matches_toNumber hc a).bind
  rintro x s₁ _ rfl
  apply (matches_toNumber hc b).bind
  rintro y s₂ _ rfl
  exact matches_pure rfl

theorem matches_comparison (hc : C.IsClear s) (test : Option Ordering → Bool) (a b : Value)
    : Matches C Excused s (Still s) (comparison test a b) (comparison test a b) := by
  apply (matches_toPrimitive hc a).bind
  rintro a s₁ _ rfl
  apply (matches_toPrimitive hc b).bind
  rintro b s₂ _ rfl
  exact matches_pure rfl

theorem matches_binary (hc : C.IsClear s) (op : BinaryOp) (a b : Value)
    : Matches C Excused s (Still s) (binary op a b) (binary op a b) := by
  cases op with
  | add =>
    apply (matches_toPrimitive hc a).bind
    rintro a s₁ _ rfl
    apply (matches_toPrimitive hc b).bind
    rintro b s₂ _ rfl
    exact matches_pure rfl
  | sub | mul | div | mod => exact matches_arithmetic hc _ a b
  | eq | ne =>
    apply (matches_looseEq hc a b).bind
    rintro equal s' _ rfl
    exact matches_pure rfl
  | strictEq | strictNe | and | or => exact matches_pure rfl
  | lt | gt | le | ge =>
    unfold binary
    exact matches_comparison hc _ a b

end ScriptHost.Run
