import PackageScript.Proofs.Engine.Steps

set_option autoImplicit false

/-! # How deep calls of the boot script nest

A call reads the boot script as it is at that moment, and the run may have rewritten it just
before. So nothing in the script itself gets smaller from one call to the next. What ends the
nesting is the depth that the session counts: at `maxExecDepth` a call is refused.

`Engine.Runs` is a run without any budget. It is the relation that the commands of a block
define by themselves, with a derivation only for a run that ends, and it records every
interpretation that is entered on the way. Each interpretation has such a derivation
(`runs_runBlock`), and only one (`Runs.unique`).
-/

namespace PackageScript.Engine

variable (e : Engine)

/-! ## The call that a command makes -/

def resolution (c : Command) (m : Machine) : Placeholder.CommandResolution :=
  (e.context m).resolveCommand m.state.bindings c

/-- The option of the boot script that a command calls when it is executed, and the machine that
it is called from. -/
def call? (c : Command) (m : Machine) : Option (ScriptOption × Machine) :=
  let r := (e.context m).resolveCommand m.state.bindings c
  match r.tokens with
  | [] => none
  | name :: args =>
      match Op.ofName name, args with
      | .exec, option :: _ =>
          match e.calledOption (Text.unquote option) (e.prepare r m) with
          | (notices, some o) => some (o, (e.prepare r m).noteAll notices)
          | (_, none) => none
      | _, _ => none

/-- The machine after a command whose call was made from one machine and ended in another. -/
def returnFrom (c : Command) (m caller after : Machine) : Machine :=
  e.logCommand ((e.context m).resolveCommand m.state.bindings c).tokens (leaveCall caller after)

theorem perform_of_ne_exec {name : String} (h : Op.ofName name ≠ .exec)
    (call call' : Block → Machine → Machine) (args : List String) (m : Machine) :
    e.perform call name args m = e.perform call' name args m := by
  simp only [perform]
  split
  · rfl
  · split
    · rfl
    · split
      · exact absurd (by assumption) h
      · rfl
      · rfl
      · rfl
      · rfl

theorem perform_exec_cons {name : String} (h : Op.ofName name = .exec)
    (call : Block → Machine → Machine) (option : String) (args : List String) (m : Machine) :
    e.perform call name (option :: args) m = e.exec call (Text.unquote option) m := by
  simp [perform, h, Op.minArgs]

theorem perform_exec_nil {name : String} (h : Op.ofName name = .exec)
    (call call' : Block → Machine → Machine) (m : Machine) :
    e.perform call name [] m = e.perform call' name [] m := by
  simp [perform, h, Op.minArgs]

theorem execute_of_tokens_nil {c : Command} {m : Machine}
    (h : ((e.context m).resolveCommand m.state.bindings c).tokens = [])
    (call : Block → Machine → Machine) : e.execute call c m = m := by
  simp only [execute, h]

theorem execute_of_tokens_cons {c : Command} {m : Machine} {name : String} {args : List String}
    (h : ((e.context m).resolveCommand m.state.bindings c).tokens = name :: args)
    (call : Block → Machine → Machine) :
    e.execute call c m = e.logCommand (name :: args)
      (e.perform call name args
        (e.prepare ((e.context m).resolveCommand m.state.bindings c) m)) := by
  simp only [execute, h]

/-- **A command that calls nothing** does the same whatever runs called options. -/
theorem execute_of_call?_none {c : Command} {m : Machine} (h : e.call? c m = none)
    (call call' : Block → Machine → Machine) : e.execute call c m = e.execute call' c m := by
  cases htokens : ((e.context m).resolveCommand m.state.bindings c).tokens with
  | nil => rw [e.execute_of_tokens_nil htokens, e.execute_of_tokens_nil htokens]
  | cons name args =>
      rw [e.execute_of_tokens_cons htokens, e.execute_of_tokens_cons htokens]
      by_cases hop : Op.ofName name = .exec
      · cases args with
        | nil => rw [e.perform_exec_nil hop call call']
        | cons option rest =>
            simp only [call?, htokens, hop] at h
            rw [e.perform_exec_cons hop, e.perform_exec_cons hop]
            split at h
            · cases h
            · next hcalled => rw [exec, exec, hcalled]
      · rw [e.perform_of_ne_exec hop call call']

/-- A command that makes no call, executed or not, does the same whatever runs the calls. -/
theorem advance_of_quiet {c : Command} {m : Machine}
    (h : m.verdict e.config.strictSections c = .run → e.call? c m = none)
    (call call' : Block → Machine → Machine) : e.advance call c m = e.advance call' c m := by
  by_cases hrun : m.verdict e.config.strictSections c = .run
  · rw [e.advance_of_run hrun, e.advance_of_run hrun]
    exact e.execute_of_call?_none (h hrun) call call'
  · unfold advance
    split
    case h_7 hv => exact absurd hv hrun
    all_goals rfl

/-- **A command that calls an option** ends where the called commands end, but for what the
caller gets back. -/
theorem execute_of_call?_some {c : Command} {m caller : Machine} {o : ScriptOption}
    (h : e.call? c m = some (o, caller)) (call : Block → Machine → Machine) :
    e.execute call c m = e.returnFrom c m caller (call o.commands (enterCall o caller)) := by
  cases htokens : ((e.context m).resolveCommand m.state.bindings c).tokens with
  | nil =>
      simp only [call?, htokens] at h
      cases h
  | cons name args =>
      rw [e.execute_of_tokens_cons htokens, returnFrom, htokens]
      simp only [call?, htokens] at h
      split at h
      · next option rest hop =>
          rw [e.perform_exec_cons hop, exec]
          split at h
          · next notices o' hcalled =>
              cases h
              rw [hcalled]
          · cases h
      · cases h

/-! ## The caller -/

theorem prepare_files (r : Placeholder.CommandResolution) (m : Machine) :
    (e.prepare r m).world.files = m.world.files := by
  rw [prepare, transcribe_world]
  rfl

theorem prepare_requests (r : Placeholder.CommandResolution) (m : Machine) :
    (e.prepare r m).world.requests = m.world.requests ++ r.trail.requests := by
  rw [prepare, transcribe_world]
  rfl

theorem prepare_state (r : Placeholder.CommandResolution) (m : Machine) :
    (e.prepare r m).state =
      if e.quiet then m.state else m.state.write ("> " ++ " ".intercalate r.tokens) := by
  rw [prepare, transcribe_state]
  rfl

theorem prepare_scriptDir (r : Placeholder.CommandResolution) (m : Machine) :
    (e.prepare r m).state.scriptDir = m.state.scriptDir := by
  rw [prepare, transcribe_state]
  split <;> rfl

theorem leaveCall_state (before after : Machine) :
    (leaveCall before after).state =
      { before.state with log := before.state.log ++ after.state.log } := rfl

def calledName? (c : Command) (m : Machine) : Option String :=
  match (e.resolution c m).tokens with
  | name :: option :: _ => if Op.ofName name = .exec then some (Text.unquote option) else none
  | _ => none

/-- What was asked by the time that the placeholders of a command are resolved. -/
def askedUpTo (c : Command) (m : Machine) : List Request :=
  m.world.requests ++ (e.resolution c m).trail.requests

def transcriptLine (c : Command) (m : Machine) : String :=
  "> " ++ " ".intercalate (e.resolution c m).tokens

/-- **A command makes a call** if it asks for an option and the boot script has that option. -/
theorem call?_eq_some_iff {c : Command} {m caller : Machine} {o : ScriptOption} :
    e.call? c m = some (o, caller) ↔ ∃ name notices, e.calledName? c m = some name ∧
      e.calledOption name (e.prepare (e.resolution c m) m) = (notices, some o) ∧
      caller = (e.prepare (e.resolution c m) m).noteAll notices := by
  unfold call? calledName? resolution
  generalize (e.context m).resolveCommand m.state.bindings c = r
  dsimp only
  constructor
  · intro h
    split at h
    · cases h
    · next name args htokens =>
        split at h
        · next option rest hop =>
            split at h
            · next notices o' hcalled =>
                cases h
                exact ⟨_, notices, by simp only [htokens, hop, if_true], hcalled, rfl⟩
            · cases h
        · cases h
  · rintro ⟨name, notices, hname, hcalled, rfl⟩
    split at hname
    · next first option rest htokens =>
        split at hname
        · next hop =>
            cases hname
            simp only [htokens, hop, hcalled]
        · cases hname
    · cases hname

/-- Nothing but its lookups stands between a command and the call that it makes. -/
theorem caller_of_call {c : Command} {m caller : Machine} {o : ScriptOption}
    (calls : e.call? c m = some (o, caller)) :
    caller.world.files = m.world.files ∧ caller.world.requests = e.askedUpTo c m ∧
      caller.state = if e.quiet then m.state else m.state.write (e.transcriptLine c m) := by
  obtain ⟨name, notices, -, -, rfl⟩ := e.call?_eq_some_iff.1 calls
  exact ⟨e.prepare_files _ m, e.prepare_requests _ m, e.prepare_state _ m⟩

theorem scriptDir_of_call {c : Command} {m caller : Machine} {o : ScriptOption}
    (calls : e.call? c m = some (o, caller)) : caller.state.scriptDir = m.state.scriptDir := by
  rw [(e.caller_of_call calls).2.2]
  split <;> rfl

/-! ## Depth -/

theorem depth_prepare (r : Placeholder.CommandResolution) (m : Machine) :
    (e.prepare r m).session.depth = m.session.depth := by
  rw [prepare, transcribe_session]
  rfl

/-- **Calls are refused at the limit.** A call is made from the depth of its command, and only
below `maxExecDepth`. -/
theorem depth_of_call? {c : Command} {m caller : Machine} {o : ScriptOption}
    (h : e.call? c m = some (o, caller)) :
    caller.session.depth = m.session.depth ∧ m.session.depth < maxExecDepth := by
  obtain ⟨name, notices, -, hcalled, rfl⟩ := e.call?_eq_some_iff.1 h
  refine ⟨e.depth_prepare _ m, ?_⟩
  rw [← e.depth_prepare (e.resolution c m) m]
  refine Nat.lt_of_not_le fun hdeep => ?_
  rw [calledOption, if_pos hdeep] at hcalled
  cases hcalled

theorem depth_enterCall (o : ScriptOption) (m : Machine) :
    (enterCall o m).session.depth = m.session.depth + 1 := rfl

/-- One level below the limit, what runs called options is an interpretation of its own. -/
theorem nestedFrom_eq_interpret {m n : Machine} (below : m.session.depth < maxExecDepth)
    (deeper : n.session.depth = m.session.depth + 1) (block : Block) :
    e.nestedFrom m block n = e.interpret block n := by
  have hbudget : maxExecDepth - m.session.depth = maxExecDepth - n.session.depth + 1 := by omega
  rw [nestedFrom, hbudget]
  rfl

/-- **A called option is interpreted like any block**, one level deeper. -/
theorem execute_of_call {c : Command} {m caller : Machine} {o : ScriptOption}
    (h : e.call? c m = some (o, caller)) :
    e.execute (e.nestedFrom m) c m
      = e.returnFrom c m caller (e.interpret o.commands (enterCall o caller)) := by
  obtain ⟨hcaller, hlimit⟩ := e.depth_of_call? h
  rw [e.execute_of_call?_some h, e.nestedFrom_eq_interpret hlimit]
  rw [depth_enterCall, hcaller]

section Balance

variable {call : Block → Machine → Machine}

theorem depth_exec (hcall : ∀ block n, (call block n).session.depth = n.session.depth)
    (option : String) (m : Machine) :
    (e.exec call option m).session.depth = m.session.depth := by
  unfold exec
  split
  · rfl
  · next notices o _ =>
      show (call o.commands (enterCall o (m.noteAll notices))).session.depth - 1 = m.session.depth
      rw [hcall, depth_enterCall]
      rfl

theorem depth_perform (hcall : ∀ block n, (call block n).session.depth = n.session.depth)
    (name : String) (args : List String) (m : Machine) :
    (e.perform call name args m).session.depth = m.session.depth := by
  apply e.perform_cases call name args m
    (motive := fun m' => m'.session.depth = m.session.depth)
  case told => exact fun _ => rfl
  case called => exact fun option => e.depth_exec hcall option m
  case bound =>
    intro source arg
    unfold bindSource
    split <;> rfl
  case refreshed => rfl
  case logged => rfl
  case acted =>
    intro op
    unfold runOnWorld
    split
    · rfl
    · rw [report_session]

theorem depth_execute (hcall : ∀ block n, (call block n).session.depth = n.session.depth)
    (c : Command) (m : Machine) : (e.execute call c m).session.depth = m.session.depth := by
  simp only [execute]
  split
  · rfl
  · rw [logCommand_session, e.depth_perform hcall, depth_prepare]

theorem depth_advance (hcall : ∀ block n, (call block n).session.depth = n.session.depth)
    (c : Command) (m : Machine) : (e.advance call c m).session.depth = m.session.depth := by
  unfold advance
  split
  · rfl
  · rfl
  · rw [openChain_session]
  · rfl
  · rfl
  · rfl
  · exact e.depth_execute hcall c m

/-- **A run keeps its depth** at every one of its steps. -/
theorem depth_steps (hcall : ∀ block n, (call block n).session.depth = n.session.depth)
    (block : Block) (m : Machine) :
    ∀ x ∈ e.steps call block m,
      x.before.session.depth = m.session.depth ∧ x.after.session.depth = m.session.depth := by
  induction block generalizing m with
  | nil => exact fun x hx => by cases hx
  | cons c rest ih =>
      intro x hx
      have hadvance := e.depth_advance hcall c m
      rcases List.mem_cons.1 hx with rfl | hx
      · exact ⟨rfl, hadvance⟩
      · split at hx
        · cases hx
        · obtain ⟨hbefore, hafter⟩ := ih _ x hx
          exact ⟨hbefore.trans hadvance, hafter.trans hadvance⟩

theorem depth_runBlock (hcall : ∀ block n, (call block n).session.depth = n.session.depth)
    (block : Block) (m : Machine) :
    (e.runBlock call block m).session.depth = m.session.depth := by
  induction block generalizing m with
  | nil => rfl
  | cons c rest ih =>
      have hadvance := e.depth_advance hcall c m
      rw [runBlock_cons]
      split
      · exact hadvance
      · exact (ih _).trans hadvance

end Balance

/-- Called runs keep the depth, however many levels are left. -/
theorem depth_nested (budget : Nat) (block : Block) (m : Machine) :
    (e.nested budget block m).session.depth = m.session.depth := by
  induction budget generalizing block m with
  | zero => rfl
  | succ budget ih =>
      show (e.interpretWithin budget block m).session.depth = m.session.depth
      rw [interpretWithin_eq, e.depth_runBlock ih]
      rfl

/-! ## Runs without a budget -/

/-- **A run of the commands of a block**, from one machine to another, with the machines in which
called options are entered on the way, at whatever depth. -/
inductive Runs (e : Engine) : Block → Machine → List Machine → Machine → Prop
  /-- No command is left. -/
  | done (m : Machine) : Runs e [] m [] m
  /-- A retry chain that is not needed ends the block. -/
  | finished {c : Command} {rest : Block} {m : Machine}
      (verdict : m.verdict e.config.strictSections c = .finished) :
      Runs e (c :: rest) m [] (closeChains m)
  /-- A command that calls nothing, whether it is executed or not. -/
  | stepped {c : Command} {rest : Block} {m last : Machine} {entered : List Machine}
      (verdict : m.verdict e.config.strictSections c ≠ .finished)
      (quiet : m.verdict e.config.strictSections c = .run → e.call? c m = none)
      (behind : Runs e rest (e.advance (fun _ m => m) c m) entered last) :
      Runs e (c :: rest) m entered last
  /-- A command that calls an option, whose commands run first. -/
  | called {c : Command} {rest : Block} {m caller after last : Machine} {o : ScriptOption}
      {inner entered : List Machine}
      (verdict : m.verdict e.config.strictSections c = .run)
      (calls : e.call? c m = some (o, caller))
      (inside : Runs e o.commands ((enterCall o caller).setSuccess true) inner after)
      (behind : Runs e rest (e.returnFrom c m caller after) entered last) :
      Runs e (c :: rest) m (enterCall o caller :: inner ++ entered) last

/-- **A block runs in one way only.** -/
theorem Runs.unique {block : Block} {m last last' : Machine} {entered entered' : List Machine}
    (h : e.Runs block m entered last) (h' : e.Runs block m entered' last') :
    entered = entered' ∧ last = last' := by
  induction h generalizing entered' last' with
  | done m =>
      cases h'
      exact ⟨rfl, rfl⟩
  | finished verdict =>
      cases h' with
      | finished _ => exact ⟨rfl, rfl⟩
      | stepped verdict' _ _ => exact absurd verdict verdict'
      | called verdict' _ _ _ =>
          rw [verdict] at verdict'
          cases verdict'
  | stepped verdict quiet _ ih =>
      cases h' with
      | finished verdict' => exact absurd verdict' verdict
      | stepped _ _ behind => exact ih behind
      | called verdict' calls _ _ =>
          rw [quiet verdict'] at calls
          cases calls
  | called verdict calls _ _ ihInside ihBehind =>
      cases h' with
      | finished verdict' =>
          rw [verdict] at verdict'
          cases verdict'
      | stepped _ quiet _ =>
          rw [quiet verdict] at calls
          cases calls
      | called _ calls' inside behind =>
          rw [calls, Option.some.injEq, Prod.mk.injEq] at calls'
          obtain ⟨rfl, rfl⟩ := calls'
          obtain ⟨rfl, rfl⟩ := ihInside inside
          obtain ⟨rfl, rfl⟩ := ihBehind behind
          exact ⟨rfl, rfl⟩

/-- A run is one without a budget if the runs that it calls are. What it enters then lies deeper
than the run itself, but not below the limit. -/
theorem runs_of_called {call : Block → Machine → Machine}
    (hcall : ∀ block n, (call block n).session.depth = n.session.depth) {depth : Nat}
    (hcalled : depth < maxExecDepth → ∀ (o : ScriptOption) (caller : Machine),
      caller.session.depth = depth →
        ∃ inner, e.Runs o.commands ((enterCall o caller).setSuccess true) inner
            (call o.commands (enterCall o caller))
          ∧ ∀ n ∈ inner, depth + 1 < n.session.depth ∧ n.session.depth ≤ maxExecDepth)
    (block : Block) {m : Machine} (hm : m.session.depth = depth) :
    ∃ entered, e.Runs block m entered (e.runBlock call block m) ∧
      ∀ n ∈ entered, depth < n.session.depth ∧ n.session.depth ≤ maxExecDepth := by
  induction block generalizing m with
  | nil => exact ⟨[], .done m, by simp⟩
  | cons c rest ih =>
      rw [runBlock_cons]
      by_cases hfinished : m.verdict e.config.strictSections c = .finished
      · rw [if_pos hfinished, advance, hfinished]
        exact ⟨[], .finished hfinished, by simp⟩
      rw [if_neg hfinished]
      obtain ⟨entered, hbehind, hdepths⟩ := ih ((e.depth_advance hcall c m).trans hm)
      by_cases hquiet : m.verdict e.config.strictSections c = .run → e.call? c m = none
      · rw [e.advance_of_quiet hquiet call fun _ m => m] at hbehind ⊢
        exact ⟨entered, .stepped hfinished hquiet hbehind, hdepths⟩
      · -- the command is executed and calls an option
        obtain ⟨hrun, hsome⟩ := Classical.not_imp.1 hquiet
        obtain ⟨⟨o, caller⟩, hcalls⟩ := Option.ne_none_iff_exists'.1 hsome
        obtain ⟨hcaller, hlimit⟩ := e.depth_of_call? hcalls
        rw [hm] at hcaller hlimit
        obtain ⟨inner, hinside, hinner⟩ := hcalled hlimit o caller hcaller
        rw [e.advance_of_run hrun, e.execute_of_call?_some hcalls] at hbehind ⊢
        refine ⟨enterCall o caller :: inner ++ entered, .called hrun hcalls hinside hbehind, ?_⟩
        intro n hn
        rcases List.mem_append.1 hn with hn | hn
        · rcases List.mem_cons.1 hn with rfl | hn
          · rw [depth_enterCall, hcaller]
            omega
          · have := hinner n hn
            omega
        · exact hdepths n hn

/-- **The levels that are left are enough.** With a budget that reaches the limit, a run is a run
without any budget. -/
theorem runs_runBlock (budget : Nat) (block : Block) {m : Machine}
    (enough : maxExecDepth ≤ m.session.depth + budget) :
    ∃ entered, e.Runs block m entered (e.runBlock (e.nested budget) block m) ∧
      ∀ n ∈ entered, m.session.depth < n.session.depth ∧ n.session.depth ≤ maxExecDepth := by
  induction budget generalizing block m with
  | zero =>
      -- at the limit nothing is called any more
      refine e.runs_of_called (e.depth_nested 0) (fun hlimit => ?_) block rfl
      omega
  | succ budget ih =>
      refine e.runs_of_called (e.depth_nested (budget + 1)) ?_ block rfl
      intro _ o caller hcaller
      have hdepth : ((enterCall o caller).setSuccess true).session.depth = m.session.depth + 1 := by
        rw [← hcaller]
        rfl
      rw [nested, interpretWithin_eq, ← hdepth]
      exact ih o.commands (by omega)

/-- **Interpreting ends, and it is balanced.** Whatever the boot script holds and however the run
rewrites it, the interpretation of a block has a derivation without any budget, and no other. Each
interpretation that is entered on the way lies deeper than the block itself, and no deeper than
the limit. The block has its own depth at each of its steps, and again at the end. -/
theorem interpret_ends_balanced (block : Block) (m : Machine) :
    ∃ entered,
      e.Runs block (m.setSuccess true) entered (e.interpret block m) ∧
      (∀ entered' last, e.Runs block (m.setSuccess true) entered' last →
        entered' = entered ∧ last = e.interpret block m) ∧
      (∀ n ∈ entered, m.session.depth < n.session.depth ∧
        n.session.depth ≤ max m.session.depth maxExecDepth) ∧
      (∀ x ∈ e.interpretSteps block m,
        x.before.session.depth = m.session.depth ∧ x.after.session.depth = m.session.depth) ∧
      (e.interpret block m).session.depth = m.session.depth := by
  have hkeeps := e.depth_nested (maxExecDepth - m.session.depth)
  have hdepth : (m.setSuccess true).session.depth = m.session.depth := rfl
  obtain ⟨entered, hruns, hdepths⟩ :=
    e.runs_runBlock (maxExecDepth - m.session.depth) block (m := m.setSuccess true) (by omega)
  rw [interpret_eq]
  refine ⟨entered, hruns, fun entered' last h => h.unique e hruns, ?_,
    e.depth_steps hkeeps block _, e.depth_runBlock hkeeps block _⟩
  intro n hn
  obtain ⟨hlower, hupper⟩ := hdepths n hn
  exact ⟨hlower, Nat.le_trans hupper (Nat.le_max_right _ _)⟩

end PackageScript.Engine
