import ScriptHost.Proofs.Session.Blame
import ScriptHost.Proofs.Session.WellFormed

/-!
This module contains the traces of exceptions. Every frame but the outermost one has a place in the script of
the frame below it, so that no trace breaks off: it names all calls that are running, or as many of the inner
ones as a trace may name.
-/

namespace ScriptHost

/-- A script is registered and has a parse, and the locations occur in it. -/
def Script.Parsed (scripts : Array Script) (id : ScriptId) (ls : List Location) : Prop :=
  ∃ script stmts, scripts[id.index]? = some script ∧ parse script.source = .ok stmts ∧
    ls ⊆ Stmt.locationsAll stmts

section Parsed

open Script

variable {scripts scripts' : Array Script} {id : ScriptId} {ls ls' : List Location}

theorem Script.Parsed.mono (hscripts : scripts.toList <+: scripts'.toList) (hp : Parsed scripts id ls)
    : Parsed scripts' id ls := by
  obtain ⟨script, stmts, hscript, hparse, hsub⟩ := hp
  exact ⟨script, stmts, Session.script_of_append hscripts hscript, hparse, hsub⟩

theorem Script.Parsed.subset (hsub : ls' ⊆ ls) (hp : Parsed scripts id ls) : Parsed scripts id ls' := by
  obtain ⟨script, stmts, hscript, hparse, hsub'⟩ := hp
  exact ⟨script, stmts, hscript, hparse, List.Subset.trans hsub hsub'⟩

/-- No script has all locations. -/
theorem Script.Parsed.exists_not (hp : Parsed scripts id ls) : ∃ loc, ¬ Parsed scripts id [loc] := by
  obtain ⟨script, stmts, hscript, hparse, -⟩ := hp
  have hinj : Function.Injective fun n : Nat => ({ offset := n } : Location) := by
    rintro m n ⟨rfl⟩
    rfl
  have hinfinite : Infinite Location := .of_injective _ hinj
  obtain ⟨loc, hloc⟩ := Infinite.exists_notMem_finset (Stmt.locationsAll stmts).toFinset
  refine ⟨loc, ?_⟩
  rintro ⟨script', stmts', hscript', hparse', hsub⟩
  rw [hscript] at hscript'
  cases hscript'
  rw [hparse] at hparse'
  cases hparse'
  exact hloc (List.mem_toFinset.2 (hsub List.mem_cons_self))

end Parsed

namespace CallStack

variable {scripts scripts' : Array Script} {stack stack' : CallStack} {frame : Frame}

/-- Every frame but the outermost one was called at a place in the script of the frame below it. -/
def Chained (scripts : Array Script) (stack : CallStack) : Prop :=
  ∀ i outer inner, stack.frames[i]? = some outer → stack.frames[i + 1]? = some inner →
    ∃ site, inner.callSite = some site ∧ Script.Parsed scripts outer.script [site]

theorem Chained.mono (hscripts : scripts.toList <+: scripts'.toList) (hc : stack.Chained scripts)
    : stack.Chained scripts' := by
  intro i outer inner houter hinner
  obtain ⟨site, hsite, hp⟩ := hc i outer inner houter hinner
  exact ⟨site, hsite, hp.mono hscripts⟩

theorem Chained.push? (hc : stack.Chained scripts) (hpush : stack.push? frame = some stack')
    (hsite : ∀ outer, stack.current? = some outer →
      ∃ site, frame.callSite = some site ∧ Script.Parsed scripts outer.script [site])
    : stack'.Chained scripts := by
  unfold CallStack.push? at hpush
  split at hpush
  . cases hpush
  . cases hpush
    intro i outer inner houter hinner
    dsimp only at houter hinner
    rw [Array.getElem?_push] at houter hinner
    split at hinner
    . next hi =>
      cases hinner
      rw [if_neg (by omega)] at houter
      apply hsite
      unfold current?
      rw [Array.back?, ← hi, Nat.add_sub_cancel]
      exact houter
    . have hlt : i + 1 < stack.frames.size := (Array.getElem?_eq_some_iff.1 hinner).1
      rw [if_neg (by omega)] at houter
      exact hc i outer inner houter hinner

/-- The scope of a frame makes no difference. -/
theorem Chained.modifyCurrent (hc : stack.Chained scripts) (scope : Option ObjectId)
    : (stack.modifyCurrent fun frame => { frame with scope := scope }).Chained scripts := by
  let frames := stack.frames.modify (stack.depth - 1) fun frame => { frame with scope := scope }
  have hold : ∀ {i : Nat} {frame : Frame}, frames[i]? = some frame →
      ∃ frame', stack.frames[i]? = some frame' ∧ frame'.script = frame.script ∧
        frame'.callSite = frame.callSite := by
    intro i frame hframe
    dsimp only [frames] at hframe
    rw [Array.getElem?_modify] at hframe
    split at hframe
    . obtain ⟨frame', hframe', rfl⟩ := Option.map_eq_some_iff.1 hframe
      exact ⟨frame', hframe', rfl, rfl⟩
    . exact ⟨frame, hframe, rfl, rfl⟩
  intro i outer inner houter hinner
  obtain ⟨outer', houter', hscript, -⟩ := hold houter
  obtain ⟨inner', hinner', -, hsite⟩ := hold hinner
  rw [← hscript, ← hsite]
  exact hc i outer' inner' houter' hinner'

end CallStack

namespace Session

variable {s s' : Session} {frame : Frame} {loc : Location}

/-- Closures occur in the parses of their scripts, and calls in those of their callers. -/
structure Sited (s : Session) : Prop where
  closures : s.heap.Closures fun f id => Script.Parsed s.scripts id f.locations
  frames : s.stack.Chained s.scripts

end Session

namespace Discipline

/-- Code runs in the script in the parse of which it occurs. -/
def sited : Discipline where
  Inv := Session.Sited
  Goes _ _ := True
  Admits _ _ := True
  Binds _ _ := True
  Code scripts id? ls := ∃ id, id? = some id ∧ Script.Parsed scripts id ls
  Throws _ _ := True

variable {s s' : Session} {op : Heap.Op} {config : Config}

theorem closures_apply_sited (hs : s.Sited) (hop : sited.Does s op)
    : (op.apply s.heap).Closures fun f id => Script.Parsed s.scripts id f.locations := by
  cases hop with
  | array | object | error | callScope | handlerScope =>
    apply Heap.keeps_allocate _ s.heap hs.closures
    intro f scope script hcontent
    cases hcontent
  | closure hcode =>
    obtain ⟨id, hid, hp⟩ := hcode
    apply Heap.keeps_allocate _ s.heap hs.closures
    intro f scope script hcontent
    cases hcontent
    rw [hid]
    exact hp
  | property | «variable» => exact Heap.keeps_setProperty _ _ _ s.heap hs.closures
  | element => exact Heap.keeps_setElement _ _ _ s.heap hs.closures
  | binding => exact Heap.keeps_declare _ _ _ _ s.heap hs.closures

theorem sited_change (hs : s.Sited) (hc : sited.Change s s') : s'.Sited := by
  cases hc with
  | store hop => exact ⟨closures_apply_sited hs hop, hs.frames⟩
  | const => exact ⟨Heap.keeps_setProperty _ _ _ s.heap hs.closures, hs.frames⟩
  | queue | dequeue | host => exact ⟨hs.closures, hs.frames⟩
  | script script =>
    have hscripts : s.scripts.toList <+: (s.scripts.push script).toList := by simp
    refine ⟨?_, hs.frames.mono hscripts⟩
    exact fun o ho f scope id hclosure => (hs.closures o ho f scope id hclosure).mono hscripts

instance : sited.Lawful where
  goes_refl _ := trivial
  goes_trans _ _ := trivial
  admits_mono _ _ := trivial
  binds_mono _ _ := trivial
  code_mono hscripts hcode := by
    obtain ⟨id, rfl, hp⟩ := hcode
    exact ⟨id, rfl, hp.mono hscripts⟩
  code_subset hsub hcode := by
    obtain ⟨id, rfl, hp⟩ := hcode
    exact ⟨id, rfl, hp.subset hsub⟩
  throws_mono _ _ := trivial
  admits_plain _ := trivial
  admits_variable _ _ := trivial
  admits_member _ _ _ := trivial
  admits_element _ _ _ _ := trivial
  admits_task _ _ := trivial
  binds_current _ _ := trivial
  binds_found _ _ := trivial
  code_closure hs hcontent := ⟨_, rfl, hs.closures.of_content hcontent⟩
  code_script _ hscript hparse := ⟨_, rfl, _, _, hscript, hparse, List.Subset.refl _⟩
  change hs hm := ⟨trivial, sited_change hs hm.change⟩
  made _ _ _ := by
    unfold Made
    split <;> trivial
  throws_failure _ _ _ := trivial
  throws_value _ _ _ := trivial
  throws_malformed _ _ _ := trivial
  throws_enter _ _ _ _ _ _ _ := trivial
  admits_caught _ _ := trivial

/-- A call from a script has a place, as it cannot be at all places. -/
theorem callSite_of_coversCall {callSite : Option Location} (hc : sited.CoversCall s callSite)
    {outer : Frame} (houter : s.stack.current? = some outer)
    : ∃ site, callSite = some site ∧ Script.Parsed s.scripts outer.script [site] := by
  have hid : s.currentScript? = some outer.script := congrArg (Option.map Frame.script) houter
  have hall : ∀ loc, Script.Parsed s.scripts outer.script [callSite.getD loc] := by
    intro loc
    obtain ⟨id, ⟨⟩, hp⟩ := hc loc outer.script hid
    exact hp
  cases callSite with
  | some site => exact ⟨site, rfl, hall site⟩
  | none =>
    obtain ⟨loc, hnot⟩ := (hall {}).exists_not
    exact absurd (hall loc) hnot

theorem sited_moved (hs : s.Sited) {stack : CallStack} {depth : Nat}
    (hm : sited.Enters config s stack depth)
    : (s.moved stack depth).Sited := by
  refine ⟨hs.closures, ?_⟩
  cases hm with
  | expression => exact hs.frames
  | frame hpush _ _ hcall => exact hs.frames.push? hpush fun _ houter => callSite_of_coversCall hcall houter
  | handler => exact hs.frames.modifyCurrent _

instance : sited.LawfulUnder config where
  enter hs hm := sited_moved hs hm
  leave hs _ hl := ⟨trivial, hl.inv.closures, hs.frames.mono hl.scripts⟩
  throws_leave _ _ _ _ := trivial

end Discipline

namespace Session

variable {s t : Session} {headline : String} {loc : Location} {k : Nat}

theorem Visited.sited (hv : s.Visited) : s.Sited := by
  apply hv.inv (D := Discipline.sited)
  intro config s₀ hstart
  refine ⟨closures_start hstart, ?_⟩
  obtain ⟨global, -, rfl⟩ := start_eq hstart
  intro i outer inner houter
  cases houter

/-! The lines of a trace. -/

/-- The line of a trace for a call of a function, or for a script at top level, which has no name. -/
def lineText (name origin : String) (place : Location) : String :=
  let site := origin ++ ":" ++ toString place.line ++ ":" ++ toString place.column
  "\n    at " ++ (if name = "" then site else name ++ " (" ++ site ++ ")")

theorem foldl_append (lines : List String) (headline : String)
    : lines.foldl (· ++ ·) headline = headline ++ String.join lines := by
  induction lines generalizing headline with
  | nil => rw [List.foldl_nil, String.join_nil, String.append_empty]
  | cons line lines ih => rw [List.foldl_cons, ih, String.join_cons, String.append_assoc]

end Session

end ScriptHost
