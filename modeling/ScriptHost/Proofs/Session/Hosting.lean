import ScriptHost.Proofs.Session.Unit

/-!
This module contains what the two ways to use a session make of it, unit by unit. A batch ends with the
first unit that fails, and a name that cannot be loaded is no unit. A line that is typed in is a unit, and
it does not matter whether it fails. No function waits when a unit starts, and the stack is the one of the
host.
-/

namespace ScriptHost.Session

variable {env : Env} {s s' s₁ : Session} {name : String} {names : List String} {ok : Bool}

/-- What a batch does with a name, and whether it goes on afterwards. -/
inductive Takes (env : Env) (s : Session) (name : String) : Bool → Session → Prop where
  | unloadable {e : LoadError} (hload : env.sources name = some (.error e))
      : Takes env s name true (s.noted ("Error reading '" ++ name ++ "'\n"))
  | unit {source : String} {ok : Bool} {s' : Session} (hload : env.sources name = some (.ok source))
      (hunit : s.Performs env source name false ok s')
      : Takes env s name ok s'

/-- A batch goes on after each of the names. -/
inductive TakesAll (env : Env) : Session → List String → Session → Prop where
  | nil (s : Session) : TakesAll env s [] s
  | cons {s s₁ s' : Session} {name : String} {names : List String} (htakes : s.Takes env name true s₁)
      (hall : TakesAll env s₁ names s')
      : TakesAll env s (name :: names) s'

/-- There is one unit for each line, behind a prompt. -/
inductive Reads (env : Env) : Session → List (List UInt8) → Session → Prop where
  | nil (s : Session) : Reads env s [] s
  | cons {s s₁ s' : Session} {line : List UInt8} {lines : List (List UInt8)} {ok : Bool}
      (hunit : (s.noted "> ").Performs env (Shell.lineText env.config.maxLineLength line) Shell.origin true
        ok s₁)
      (hreads : Reads env s₁ lines s')
      : Reads env s (line :: lines) s'

theorem Takes.ready (ht : s.Takes env name ok s') (hwaiting : s.microtasks = []) : s.Ready s' := by
  cases ht with
  | unloadable hload => exact ⟨hwaiting, rfl⟩
  | unit hload hunit => exact hunit.ready

theorem TakesAll.ready (ht : s.TakesAll env names s') (hwaiting : s.microtasks = []) : s.Ready s' := by
  induction ht with
  | nil s => exact ⟨hwaiting, rfl⟩
  | cons htakes _ ih =>
    have hr := htakes.ready hwaiting
    exact hr.trans (ih hr.microtasks)

theorem Reads.ready {lines : List (List UInt8)} (hr : s.Reads env lines s') (hwaiting : s.microtasks = [])
    : s.Ready s' := by
  induction hr with
  | nil s => exact ⟨hwaiting, rfl⟩
  | cons hunit _ ih =>
    have hready := hunit.ready
    exact Ready.trans ⟨hready.microtasks, hready.stack⟩ (ih hready.microtasks)

/-! Batches. -/

theorem calm_batch (names : List String) : Run.Calm (Run.batch names) := by
  induction names with
  | nil => exact Run.calm_pure 0
  | cons name names ih =>
    apply (Run.calm_load name).bind
    intro answer
    cases answer with
    | error _ => exact (Run.calm_modify _).bind fun _ => ih
    | ok source =>
      apply (Run.calm_execute source name false true).bind
      intro executed
      apply Run.calm_drain.bind
      intro drained
      split
      . exact ih
      . exact Run.calm_pure 1

theorem load_eq {answer : Except LoadError String} (hload : env.sources name = some answer) (s : Session)
    : Run.load name env s = .done answer s := by
  unfold Run.load
  rw [Run.bind_done (rfl : Run.env env s = .done env s), hload]
  rfl

theorem batch_of_takes (ht : s.Takes env name ok s₁) (names : List String)
    : Run.batch (name :: names) env s = if ok then Run.batch names env s₁ else .done 1 s₁ := by
  rw [Run.batch]
  cases ht with
  | unloadable hload =>
    rw [Run.bind_done (load_eq hload s)]
    rfl
  | unit hload hunit =>
    cases hunit with
    | @intro executed drained _ _ hexecute hdrain =>
      rw [Run.bind_done (load_eq hload s)]
      dsimp only
      rw [Run.bind_done hexecute, Run.bind_done hdrain]
      cases executed && drained <;> rfl

theorem batch_of_takesAll (ht : s.TakesAll env names s₁) (names' : List String)
    : Run.batch (names ++ names') env s = Run.batch names' env s₁ := by
  induction ht with
  | nil => rfl
  | cons htakes _ ih =>
    rw [List.cons_append, batch_of_takes htakes, if_pos rfl]
    exact ih

theorem takes_of_batch {status : UInt32} (hbatch : Run.batch (name :: names) env s = .done status s')
    : ∃ ok s₁, s.Takes env name ok s₁ := by
  unfold Run.batch at hbatch
  obtain ⟨answer, s₁, hload, hbatch⟩ := Run.bind_eq_done.1 hbatch
  have hanswer : env.sources name = some answer ∧ s₁ = s := by
    unfold Run.load at hload
    rw [Run.bind_done (rfl : Run.env env s = .done env s)] at hload
    cases hsource : env.sources name with
    | none =>
      rw [hsource] at hload
      cases hload
    | some answer' =>
      rw [hsource] at hload
      cases hload
      exact ⟨rfl, rfl⟩
  obtain ⟨hsource, rfl⟩ := hanswer
  cases answer with
  | error e => exact ⟨_, _, .unloadable hsource⟩
  | ok source =>
    obtain ⟨executed, s₂, hexecute, hbatch⟩ := Run.bind_eq_done.1 hbatch
    obtain ⟨drained, s₃, hdrain, -⟩ := Run.bind_eq_done.1 hbatch
    exact ⟨_, _, .unit hsource (.intro hexecute hdrain)⟩

/-- A batch goes on after all of its names, or ends with the first one after which it does not. -/
theorem batch_cases (hout : (Run.batch names env s).session? = some s')
    : (Run.batch names env s = .done 0 s' ∧ s.TakesAll env names s') ∨
      (Run.batch names env s = .done 1 s' ∧ ∃ before name after s₁, names = before ++ name :: after ∧
        s.TakesAll env before s₁ ∧ s₁.Takes env name false s') := by
  induction names generalizing s with
  | nil =>
    cases hout
    exact .inl ⟨rfl, .nil _⟩
  | cons name names ih =>
    obtain ⟨status, hbatch⟩ := (calm_batch _).done hout
    obtain ⟨ok, s₁, htakes⟩ := takes_of_batch hbatch
    rw [batch_of_takes htakes names] at hout ⊢
    cases ok with
    | false =>
      cases hout
      exact .inr ⟨rfl, [], name, names, s, rfl, .nil s, htakes⟩
    | true =>
      rcases ih hout with ⟨hzero, hall⟩ | ⟨hone, before, name', after, s₂, rfl, hall, hfails⟩
      . exact .inl ⟨hzero, .cons htakes hall⟩
      . exact .inr ⟨hone, name :: before, name', after, s₂, rfl, .cons htakes hall, hfails⟩

/-- A batch can be cut in two. The second part begins if the first one has succeeded. -/
theorem batch_append (names names' : List String)
    : Run.batch (names ++ names')
        = Run.batch names >>= fun status => if status = 0 then Run.batch names' else pure status := by
  induction names with
  | nil => rfl
  | cons name names ih =>
    rw [List.cons_append, Run.batch, Run.batch, bind_assoc]
    congr 1
    funext answer
    cases answer with
    | error _ =>
      dsimp only
      rw [ih, bind_assoc]
    | ok source =>
      simp only [bind_assoc]
      congr 1
      funext executed
      congr 1
      funext drained
      split
      . exact ih
      . rfl

/-! Lines that are typed in. -/

/-- Prompt for a line and run it. -/
abbrev promptLine (line : List UInt8) : Run Unit := do
  Shell.prompt
  Shell.runLine line

theorem calm_promptLine (line : List UInt8) : Run.Calm (promptLine line) := by
  apply (Run.calm_modify _).bind
  intro _
  apply Run.calm_env.bind
  intro env
  exact (Run.calm_execute _ _ _ _).discard.bind fun _ => Run.calm_drain.discard

theorem calm_interactive (input : List UInt8) : Run.Calm (Run.interactive input) := by
  apply (Run.calm_modify _).bind
  intro _
  apply (Run.calm_forM calm_promptLine).bind
  intro _
  exact (Run.calm_modify _).bind fun _ => (Run.calm_modify _).bind fun _ => Run.calm_pure 0

theorem promptLine_eq_done {line : List UInt8}
    : promptLine line env s = .done () s'
        ↔ ∃ ok, (s.noted "> ").Performs env (Shell.lineText env.config.maxLineLength line) Shell.origin true
            ok s' := by
  constructor
  . intro hline
    obtain ⟨_, _, ⟨⟩, hline⟩ := Run.bind_eq_done.1 hline
    obtain ⟨_, _, ⟨⟩, hline⟩ := Run.bind_eq_done.1 hline
    obtain ⟨_, s₁, hexecute, hdrain⟩ := Run.bind_eq_done.1 hline
    obtain ⟨executed, hexecute⟩ := Run.discard_eq_done.1 hexecute
    obtain ⟨drained, hdrain⟩ := Run.discard_eq_done.1 hdrain
    exact ⟨_, .intro hexecute hdrain⟩
  . rintro ⟨_, hunit⟩
    cases hunit with
    | intro hexecute hdrain =>
      change Shell.runLine line env (s.noted "> ") = _
      unfold Shell.runLine
      rw [Run.bind_done (rfl : Run.env env _ = .done env _),
        Run.bind_done (Run.discard_eq_done.2 ⟨_, hexecute⟩)]
      exact Run.discard_eq_done.2 ⟨_, hdrain⟩

theorem reads_iff {lines : List (List UInt8)}
    : lines.forM promptLine env s = .done () s' ↔ s.Reads env lines s' := by
  induction lines generalizing s with
  | nil =>
    constructor
    . rintro ⟨⟩
      exact .nil _
    . rintro ⟨⟩
      rfl
  | cons line lines ih =>
    change (promptLine line >>= fun _ => lines.forM promptLine) env s = .done () s' ↔ _
    rw [Run.bind_eq_done]
    constructor
    . rintro ⟨_, s₁, hline, hlines⟩
      obtain ⟨ok, hunit⟩ := promptLine_eq_done.1 hline
      exact .cons hunit (ih.1 hlines)
    . intro hreads
      cases hreads with
      | cons hunit hreads => exact ⟨(), _, promptLine_eq_done.2 ⟨_, hunit⟩, ih.2 hreads⟩

/-- The text that comes before the first prompt. -/
def greeting : String :=
  "Welcome to Spectre " ++ version ++ "\n"

theorem interactive_iff {input : List UInt8}
    : (Run.interactive input env s).session? = some s'
        ↔
      ∃ s₁, (s.noted greeting).Reads env (Shell.inputLines input) s₁ ∧ s' = (s₁.noted "> ").noted "\n" := by
  constructor
  . intro hout
    obtain ⟨status, hdone⟩ := (calm_interactive input).done hout
    obtain ⟨_, _, ⟨⟩, hdone⟩ := Run.bind_eq_done.1 hdone
    obtain ⟨_, s₁, hlines, ⟨⟩⟩ := Run.bind_eq_done.1 hdone
    exact ⟨s₁, reads_iff.1 hlines, rfl⟩
  . rintro ⟨s₁, hreads, rfl⟩
    have hlines := reads_iff.2 hreads
    have hdone : Run.interactive input env s = .done 0 ((s₁.noted "> ").noted "\n") :=
      Run.bind_done hlines _
    rw [hdone]
    rfl

theorem status_interactive {input : List UInt8} (hout : (Run.interactive input env s).session? = some s')
    : Run.interactive input env s = .done 0 s' := by
  obtain ⟨status, hdone⟩ := (calm_interactive input).done hout
  obtain ⟨_, _, ⟨⟩, hdone'⟩ := Run.bind_eq_done.1 hdone
  obtain ⟨_, s₁, _, ⟨⟩⟩ := Run.bind_eq_done.1 hdone'
  exact hdone

theorem takeWhile_line {line : List UInt8} (hline : Shell.lineFeed ∉ line) (rest : List UInt8)
    : (line ++ rest).takeWhile (· ≠ Shell.lineFeed) = line ++ rest.takeWhile (· ≠ Shell.lineFeed) := by
  apply List.takeWhile_append_of_pos
  intro c hc
  have hne : c ≠ Shell.lineFeed := fun heq => hline (heq ▸ hc)
  simpa using hne

theorem inputLines_append {line : List UInt8} (hline : Shell.lineFeed ∉ line) (input : List UInt8)
    : Shell.inputLines (line ++ Shell.lineFeed :: input) = line :: Shell.inputLines input := by
  have htake : (line ++ Shell.lineFeed :: input).takeWhile (· ≠ Shell.lineFeed) = line := by
    rw [takeWhile_line hline]
    simp
  rw [Shell.inputLines, dif_neg (by simp)]
  simp only [htake]
  rw [List.drop_append, List.drop_of_length_le (Nat.le_succ _)]
  simp

theorem inputLines_last {line : List UInt8} (hline : Shell.lineFeed ∉ line) (hne : line ≠ [])
    : Shell.inputLines line = [line] := by
  have htake : line.takeWhile (· ≠ Shell.lineFeed) = line := by
    simpa using takeWhile_line hline []
  rw [Shell.inputLines, dif_neg hne]
  simp only [htake]
  rw [List.drop_of_length_le (Nat.le_succ _), Shell.inputLines, dif_pos rfl]

/--
A batch is the batches of its parts, one after the other while they succeed. It fails if a unit fails, and
then comes to the same end whatever names come after. A session at the prompt runs every line. All units
start when no function waits and on the stack of the host.
-/
theorem units_hosted (env : Env) (hwaiting : s.microtasks = [])
    : (∀ names names', Run.batch (names ++ names') env s
        = (Run.batch names >>= fun status => if status = 0 then Run.batch names' else pure status) env s) ∧
      (∀ names s', (Run.batch names env s).session? = some s' →
        (Run.batch names env s = .done 0 s' ∧ s.TakesAll env names s') ∨
        (Run.batch names env s = .done 1 s' ∧ ∃ before name after s₁, names = before ++ name :: after ∧
          s.TakesAll env before s₁ ∧ s₁.Takes env name false s')) ∧
      (∀ names s₁, s.TakesAll env names s₁ → s.Ready s₁ ∧ Run.batch names env s = .done 0 s₁ ∧
        ∀ name s', s₁.Takes env name false s' →
          ∀ after, Run.batch (names ++ name :: after) env s = .done 1 s') ∧
      (∀ input s', (Run.interactive input env s).session? = some s' →
        Run.interactive input env s = .done 0 s') ∧
      (∀ input s', (Run.interactive input env s).session? = some s' ↔
        ∃ s₁, (s.noted greeting).Reads env (Shell.inputLines input) s₁ ∧
          s' = (s₁.noted "> ").noted "\n") ∧
      (∀ lines s₁, (s.noted greeting).Reads env lines s₁ → s.Ready s₁) ∧
      Shell.inputLines [] = [] ∧
      (∀ line, Shell.lineFeed ∉ line → (line ≠ [] → Shell.inputLines line = [line]) ∧
        ∀ input, Shell.inputLines (line ++ Shell.lineFeed :: input) = line :: Shell.inputLines input) := by
  refine ⟨?_, ?_, ?_, ?_, ?_, ?_, ?_, ?_⟩
  . intro names names'
    rw [batch_append]
  . intro names s' hout
    exact batch_cases hout
  . intro names s₁ hall
    refine ⟨hall.ready hwaiting, ?_, ?_⟩
    . have hbatch := batch_of_takesAll hall []
      rwa [List.append_nil] at hbatch
    . intro name s' hfails after
      rw [batch_of_takesAll hall, batch_of_takes hfails]
      rfl
  . intro input s' hout
    exact status_interactive hout
  . intro input s'
    exact interactive_iff
  . intro lines s₁ hreads
    have hr := hreads.ready hwaiting
    exact ⟨hr.microtasks, hr.stack⟩
  . rw [Shell.inputLines, dif_pos rfl]
  . intro line hline
    exact ⟨inputLines_last hline, inputLines_append hline⟩

/-- A host with a script that makes a function wait which fails. -/
def failingEnv : Env :=
  ⟨{}, .ofList [("a.js", "print(1);"), ("b.js", "queueMicrotask(read);")], 100⟩

/-- A new session, and the end of a batch with a failure before its last name. -/
def hosted? : Option (Session × UInt32 × Session) :=
  match Session.start {} with
  | .ok s =>
    match Run.batch ["a.js", "missing.js", "b.js", "a.js"] failingEnv s with
    | .done status s' => some (s, status, s')
    | _ => none
  | .error _ => none

theorem hosted_spec
    : ∃ p, hosted? = some p ∧ p.1.microtasks = [] ∧ p.2.1 = 1 ∧ p.2.2.reports.length = 2 := by
  decide +kernel

theorem batch_of_hosted? {p : Session × UInt32 × Session} (hp : hosted? = some p)
    : Run.batch ["a.js", "missing.js", "b.js", "a.js"] failingEnv p.1 = .done p.2.1 p.2.2 := by
  unfold hosted? at hp
  split at hp
  . split at hp
    . next hbatch =>
      cases hp
      exact hbatch
    . cases hp
  . cases hp

/-- One name cannot be loaded, and another one fails. -/
theorem units_hosted_failing
    : ∃ s s' s₁ before name after, s.microtasks = [] ∧ s'.reports.length = 2
        ∧ Run.batch ["a.js", "missing.js", "b.js", "a.js"] failingEnv s = .done 1 s'
        ∧ ["a.js", "missing.js", "b.js", "a.js"] = before ++ name :: after
        ∧ s.Ready s₁ ∧ s₁.Takes failingEnv name false s'
        ∧ Run.batch (before ++ [name]) failingEnv s = .done 1 s' := by
  obtain ⟨⟨s, status, s'⟩, hp, hwaiting, rfl, hreports⟩ := hosted_spec
  have hbatch := batch_of_hosted? hp
  obtain ⟨-, hends, hgoes, -⟩ := units_hosted failingEnv hwaiting
  have hout := congrArg Outcome.session? hbatch
  rcases hends _ s' hout with ⟨hzero, -⟩ | ⟨-, before, name, after, s₁, hnames, hall, hfails⟩
  . rw [hbatch] at hzero
    cases hzero
  . obtain ⟨hready, -, hfailing⟩ := hgoes before s₁ hall
    exact ⟨s, s', s₁, before, name, after, hwaiting, hreports, hbatch, hnames, hready, hfails,
      hfailing name s' hfails []⟩

end ScriptHost.Session
