import PackageScript.Proofs.Engine.Nesting
import PackageScript.Proofs.Engine.RetryChains
import PackageScript.Proofs.Engine.SuccessFlag

set_option autoImplicit false

/-! # Accounts of the session flags

Whatever goes wrong with a command, its failure is told and the run goes on. Only three things
lower the success flag: a placeholder that is not resolved, a download or an extraction that the
collaborator does not confirm, and a called option that ends with the flag down
(`Engine.Healthy`). Only one thing asks for a refresh: a command of that name, in the block or
within what it calls (`Engine.ExecutedWithin`). So both flags can be read off the executions.
-/

namespace PackageScript

/-! ## What an operation answers -/

theorem Action.eq_of_thenPure {α β : Type} {act : Action α} {b b' : β} {w w' : World}
    (h : (do let _ ← act; pure b : Action β) w = .ok b' w') : b' = b := by
  have hbind : EStateM.bind act (fun _ => pure b) w = .ok b' w' := h
  rw [EStateM.bind] at hbind
  split at hbind
  · cases hbind
    rfl
  · cases hbind

/-- An action that tells whether a collaborator confirms a request, with a notice if not. -/
theorem Action.confirmed_eq (host : Host) (r : Request) (notice : Notice) (w : World) :
    ∃ w', (do
        let succeeded ← Action.request host r
        if succeeded then pure true
        else
          Action.note notice
          pure false : Action Bool) w = .ok (w.ask host r).1 w' := by
  have hrequest : Action.request host r w = .ok (w.ask host r).1 (w.ask host r).2 := rfl
  generalize (w.ask host r).2 = asked at hrequest
  show ∃ w', EStateM.bind (Action.request host r) _ w = _
  rw [EStateM.bind, hrequest]
  cases (w.ask host r).1 with
  | true => exact ⟨asked, rfl⟩
  | false => exact ⟨asked.note notice, rfl⟩

namespace Setting

variable (s : Setting)

/-- The request of a download or an extraction with enough arguments. The success flag depends on
what a collaborator answers to no other command. -/
def fetch? : Op → List String → Option Request
  | .download, url :: dst :: _ => some (.download (Text.unquote url) (s.locate dst))
  | .unzip, archive :: dst :: _ => some (.unzip (s.locate archive) (s.locate dst))
  | _, _ => none

/-- A download or an extraction tells what the collaborator answers. -/
theorem run_of_fetch {op : Op} {args : List String} {r : Request} (h : s.fetch? op args = some r)
    (w : World) : ∃ w', s.run op args w = .ok (w.ask s.host r).1 w' := by
  unfold fetch? at h
  split at h
  · cases h
    exact Action.confirmed_eq s.host _ _ w
  · cases h
    exact Action.confirmed_eq s.host _ _ w
  · cases h

/-- **Any other command that does not fail tells that all is well.** -/
theorem run_of_no_fetch {op : Op} {args : List String} (h : s.fetch? op args = none)
    {w w' : World} {healthy : Bool} (hrun : s.run op args w = .ok healthy w') :
    healthy = true := by
  unfold run at hrun
  split at hrun
  case h_21 => cases h
  case h_22 => cases h
  case h_27 =>
    cases hrun
    rfl
  all_goals exact Action.eq_of_thenPure hrun

theorem fetch?_of_short {op : Op} {args : List String} (short : args.length < op.minArgs) :
    s.fetch? op args = none := by
  unfold fetch?
  split
  · exact absurd short (by simp [Op.minArgs])
  · exact absurd short (by simp [Op.minArgs])
  · rfl

end Setting

namespace Engine

variable (e : Engine)

/-! ## Healthy commands and executions -/

/-- The request on whose answer the success flag depends when a command is executed. -/
def fetch? (c : Command) (m : Machine) : Option Request :=
  match (e.resolution c m).tokens with
  | name :: args => (e.setting m).fetch? (Op.ofName name) args
  | [] => none

/-- **A command that keeps the success flag up** when it is executed. -/
structure Healthy (c : Command) (m : Machine) : Prop where
  /-- All its placeholders are resolved. -/
  resolved : (e.resolution c m).complete = true
  /-- A collaborator confirms its download or extraction. -/
  answered : ∀ r, e.fetch? c m = some r →
    (e.host.perform (e.askedUpTo c m) m.world.files r).1 = true
  /-- The option that it calls ends with the flag up. -/
  called : ∀ o caller, e.call? c m = some (o, caller) →
    (e.interpret o.commands (enterCall o caller)).session.success = true

/-- **What is executed when a block is interpreted**, at whatever depth of calls. -/
inductive ExecutedWithin (e : Engine) : Block → Machine → Step → Prop
  /-- A command of the block itself. -/
  | own {block : Block} {m : Machine} {x : Step} (executed : x ∈ e.executions block m) :
      ExecutedWithin e block m x
  /-- A command within an option that a command of the block calls. -/
  | called {block : Block} {m caller : Machine} {o : ScriptOption} {x y : Step}
      (executed : y ∈ e.executions block m)
      (calls : e.call? y.command y.before = some (o, caller))
      (inside : ExecutedWithin e o.commands (enterCall o caller) x) :
      ExecutedWithin e block m x

/-! ## One command -/

theorem ofName_eq_refresh_iff {name : String} : Op.ofName name = .refresh ↔ name = "refresh" := by
  have table : ∀ entry ∈ Op.names, entry.2 = .refresh → entry.1 = "refresh" := by decide
  constructor
  · intro h
    rw [Op.ofName] at h
    cases hlookup : Op.names.lookup name with
    | none =>
        rw [hlookup] at h
        cases h
    | some op =>
        rw [hlookup, Option.getD_some] at h
        obtain ⟨front, rest, hnames, -⟩ := List.lookup_eq_some_iff.1 hlookup
        exact table (name, op) (by simp [hnames]) h
  · rintro rfl
    decide

/-- The answer that the success flag takes from an operation. -/
def answer (op : Op) (args : List String) (m : Machine) : Bool :=
  match (e.setting m).fetch? op args with
  | some r => (m.world.ask e.host r).1
  | none => true

theorem runOnWorld_session (op : Op) (name : String) (args : List String) (m : Machine) :
    (e.runOnWorld op name args m).session =
      { m.session with success := m.session.success && e.answer op args m } := by
  unfold runOnWorld answer
  cases hfetch : (e.setting m).fetch? op args with
  | some r =>
      obtain ⟨w, hrun⟩ := (e.setting m).run_of_fetch hfetch m.world
      rw [hrun]
      rfl
  | none =>
      cases hrun : (e.setting m).run op args m.world with
      | ok healthy w =>
          rw [(e.setting m).run_of_no_fetch hfetch hrun]
          rfl
      | error err w =>
          dsimp only
          rw [report_session, Bool.and_true]

/-- **What a command that calls nothing does to the session.** -/
theorem perform_session (call : Block → Machine → Machine) (name : String) (args : List String)
    (m : Machine) (quiet : ∀ option, Op.ofName name = .exec → args.head? = some option →
      (e.calledOption (Text.unquote option) m).2 = none) :
    (e.perform call name args m).session =
      { m.session with
        success := m.session.success && e.answer (Op.ofName name) args m
        refresh := m.session.refresh || decide (Op.ofName name = .refresh) } := by
  generalize hop : Op.ofName name = op at quiet ⊢
  -- most commands leave the session as it is
  have same : (e.setting m).fetch? op args = none → op ≠ .refresh →
      m.session = { m.session with
        success := m.session.success && e.answer op args m
        refresh := m.session.refresh || decide (op = .refresh) } := by
    intro hfetch hrefresh
    rw [answer, hfetch, Bool.and_true, decide_eq_false hrefresh, Bool.or_false]
  unfold perform
  rw [hop]
  dsimp only
  split
  · next unknown =>
      subst unknown
      exact same rfl Op.noConfusion
  · split
    · next short =>
        refine same ((e.setting m).fetch?_of_short short) ?_
        rintro rfl
        exact absurd short (Nat.not_lt_zero _)
    · split
      · next option _ _ _ =>
          rw [exec]
          split
          · exact same rfl Op.noConfusion
          · next notices o hcalled =>
              have hnone := quiet option rfl rfl
              rw [hcalled] at hnone
              cases hnone
      · unfold bindSource
        split <;> exact same rfl Op.noConfusion
      · have hfetch : (e.setting m).fetch? .refresh args = none := rfl
        rw [answer, hfetch, Bool.and_true, decide_eq_true rfl, Bool.or_true]
      · exact same rfl Op.noConfusion
      · next hrefresh _ _ _ =>
          rw [runOnWorld_session, decide_eq_false fun h => hrefresh h, Bool.or_false]

theorem prepare_session (r : Placeholder.CommandResolution) (m : Machine) :
    (e.prepare r m).session = { m.session with success := m.session.success && r.complete } := by
  rw [prepare, transcribe_session]
  rfl

/-- A command that asks for an option and calls none finds none. -/
theorem calledOption_of_quiet {name : String} {args : List String} {m : Machine}
    (quiet : e.call? (name :: args) m = none) {option : String} (hop : Op.ofName name = .exec)
    (hoption : (e.resolution (name :: args) m).tokens.tail.head? = some option) :
    (e.calledOption (Text.unquote option) (e.prepare (e.resolution (name :: args) m) m)).2
      = none := by
  have hname : e.calledName? (name :: args) m = some (Text.unquote option) := by
    obtain ⟨rest, htail⟩ := List.head?_eq_some_iff.1 hoption
    have htokens : (e.resolution (name :: args) m).tokens = name :: option :: rest := by
      rw [← htail]
      rfl
    rw [calledName?, htokens]
    exact if_pos hop
  generalize hcalled : e.calledOption (Text.unquote option) _ = found
  obtain ⟨notices, _ | o⟩ := found
  · rfl
  · rw [e.call?_eq_some_iff.2 ⟨_, notices, hname, hcalled, rfl⟩] at quiet
    cases quiet

/-- What a collaborator answers depends on the files, and on the requests up to then. -/
theorem answer_prepare (name : String) (args : List String) (m : Machine) :
    e.answer (Op.ofName name) (e.resolution (name :: args) m).tokens.tail
        (e.prepare (e.resolution (name :: args) m) m)
      = (e.fetch? (name :: args) m).all fun r =>
        (e.host.perform (e.askedUpTo (name :: args) m) m.world.files r).1 := by
  have hfetch : (e.setting (e.prepare (e.resolution (name :: args) m) m)).fetch? (Op.ofName name)
      (e.resolution (name :: args) m).tokens.tail = e.fetch? (name :: args) m := rfl
  rw [answer, hfetch]
  cases e.fetch? (name :: args) m with
  | none => rfl
  | some r =>
      show (e.host.perform _ _ r).1 = (e.host.perform _ _ r).1
      rw [prepare_requests, prepare_files]
      rfl

/-- **What a command does to the session** if it calls no option. -/
theorem execute_session_of_quiet (call : Block → Machine → Machine) {c : Command} {m : Machine}
    (quiet : e.call? c m = none) :
    (e.execute call c m).session.success
        = ((m.session.success && (e.resolution c m).complete) &&
          (e.fetch? c m).all fun r => (e.host.perform (e.askedUpTo c m) m.world.files r).1) ∧
      (e.execute call c m).session.refresh
        = (m.session.refresh || decide (c.head? = some "refresh")) := by
  cases c with
  | nil => exact ⟨by rw [Bool.and_assoc]; exact (Bool.and_true _).symm, (Bool.or_false _).symm⟩
  | cons name args =>
      have hrefresh : decide (Op.ofName name = .refresh)
          = decide ((name :: args).head? = some "refresh") := by
        rw [decide_eq_decide, ofName_eq_refresh_iff, List.head?_cons, Option.some.injEq]
      have hexecute : (e.execute call (name :: args) m).session = (e.perform call name
          (e.resolution (name :: args) m).tokens.tail
          (e.prepare (e.resolution (name :: args) m) m)).session := e.logCommand_session _ _
      rw [hexecute, e.perform_session call name _ _ fun option hop hoption =>
        e.calledOption_of_quiet quiet hop hoption, answer_prepare, prepare_session, hrefresh]
      exact ⟨rfl, rfl⟩

/-- **What a command that calls an option does to the session.** -/
theorem execute_session_of_call {c : Command} {m caller : Machine} {o : ScriptOption}
    (calls : e.call? c m = some (o, caller)) :
    (e.execute (e.nestedFrom m) c m).session.success
        = (m.session.success && (e.resolution c m).complete &&
          (e.interpret o.commands (enterCall o caller)).session.success) ∧
      (e.execute (e.nestedFrom m) c m).session.refresh
        = (e.interpret o.commands (enterCall o caller)).session.refresh := by
  obtain ⟨name, notices, -, -, hcaller⟩ := e.call?_eq_some_iff.1 calls
  have hsuccess : caller.session.success
      = (m.session.success && (e.resolution c m).complete) := by
    rw [hcaller]
    exact congrArg (·.success) (e.prepare_session _ m)
  rw [e.execute_of_call calls, returnFrom, logCommand_session, ← hsuccess]
  exact ⟨rfl, rfl⟩

theorem exec_of_call {c : Command} {m caller : Machine} {o : ScriptOption}
    (calls : e.call? c m = some (o, caller)) :
    ∃ name args, c = name :: args ∧ Op.ofName name = .exec := by
  obtain ⟨wanted, notices, hname, -, -⟩ := e.call?_eq_some_iff.1 calls
  cases c with
  | nil => cases hname
  | cons name args =>
      refine ⟨name, args, rfl, Decidable.byContradiction fun hop => ?_⟩
      rw [calledName?] at hname
      split at hname
      · next first option rest htokens =>
          cases (List.cons.inj htokens).1
          rw [if_neg hop] at hname
          cases hname
      · cases hname

theorem fetch?_of_call {c : Command} {m caller : Machine} {o : ScriptOption}
    (calls : e.call? c m = some (o, caller)) : e.fetch? c m = none := by
  obtain ⟨name, args, rfl, hop⟩ := e.exec_of_call calls
  show (e.setting m).fetch? (Op.ofName name) _ = none
  rw [hop]
  rfl

theorem head?_of_call {c : Command} {m caller : Machine} {o : ScriptOption}
    (calls : e.call? c m = some (o, caller)) : c.head? ≠ some "refresh" := by
  obtain ⟨name, args, rfl, hop⟩ := e.exec_of_call calls
  intro h
  rw [List.head?_cons, Option.some.injEq, ← ofName_eq_refresh_iff, hop] at h
  cases h

/-- **The flag stays up behind a command if it was up and the command is healthy.** -/
theorem success_execute_iff (c : Command) (m : Machine) :
    (e.execute (e.nestedFrom m) c m).session.success = true ↔
      m.session.success = true ∧ e.Healthy c m := by
  cases hcall : e.call? c m with
  | none =>
      rw [(e.execute_session_of_quiet _ hcall).1, Bool.and_eq_true, Bool.and_eq_true,
        Option.all_eq_true]
      constructor
      · rintro ⟨⟨up, complete⟩, answered⟩
        refine ⟨up, complete, answered, ?_⟩
        intro o caller calls
        rw [hcall] at calls
        cases calls
      · rintro ⟨up, healthy⟩
        exact ⟨⟨up, healthy.resolved⟩, healthy.answered⟩
  | some found =>
      obtain ⟨o, caller⟩ := found
      rw [(e.execute_session_of_call hcall).1, Bool.and_eq_true, Bool.and_eq_true]
      constructor
      · rintro ⟨⟨up, complete⟩, inside⟩
        refine ⟨up, complete, ?_, ?_⟩
        · intro r hr
          rw [e.fetch?_of_call hcall] at hr
          cases hr
        · intro o' caller' calls
          rw [hcall] at calls
          cases calls
          exact inside
      · rintro ⟨up, healthy⟩
        exact ⟨⟨up, healthy.resolved⟩, healthy.called o caller hcall⟩

/-! ## A run -/

theorem depth_of_execution {block : Block} {m : Machine} {x : Step}
    (h : x ∈ e.executions block m) : x.before.session.depth = m.session.depth :=
  (e.depth_steps (e.depth_nested _) block (m.setSuccess true) x (mem_executed_iff.1 h).1).1

theorem after_execution {block : Block} {m : Machine} {x : Step} (h : x ∈ e.executions block m) :
    x.after = e.execute (e.nestedFrom x.before) x.command x.before := by
  rw [(e.mem_executions h).2.2, nestedFrom, nestedFrom, e.depth_of_execution h]

/-- **The flag behind an execution.** -/
theorem success_of_execution {block : Block} {m : Machine} {x : Step}
    (h : x ∈ e.executions block m) :
    x.after.session.success = true ↔
      x.before.session.success = true ∧ e.Healthy x.command x.before := by
  rw [e.after_execution h]
  exact e.success_execute_iff x.command x.before

/-- **Without retry chains the flag is up at the end if all that was executed is healthy.** -/
theorem success_interpret_iff {block : Block} (plain : ∀ c ∈ block, ¬ OpensChain c) (m : Machine) :
    (e.interpret block m).session.success = true ↔
      ∀ x ∈ e.executions block m, e.Healthy x.command x.before := by
  rw [interpret_eq]
  refine (iff_of_eq (e.view_runBlock (fun n => n.session.success = true)
    (fun xs up => up ∧ ∀ x ∈ xs, e.Healthy x.command x.before) ?none (e.nestedFrom m) block
    (m.setSuccess true) ?held ?ran)).trans (and_iff_right rfl)
  case none => exact fun up => propext (and_iff_left (List.forall_mem_nil _))
  case held =>
    intro x hx held
    obtain ⟨hmem, hverdict, hafter⟩ := e.mem_steps hx
    rw [hafter, e.success_of_held (plain _ hmem) (hverdict ▸ held)]
  case ran =>
    intro x hx run xs
    have hexec : x ∈ e.executions block m := mem_executed_iff.2 ⟨hx, run⟩
    simp only [List.forall_mem_cons, e.success_of_execution hexec, and_assoc]

theorem refresh_of_held {call : Block → Machine → Machine} {c : Command} {m : Machine}
    (held : m.verdict e.config.strictSections c ≠ .run) :
    (e.advance call c m).session.refresh = m.session.refresh := by
  unfold advance
  split
  case h_3 => rw [openChain_session]
  case h_7 run => exact absurd run held
  all_goals rfl

/-- **A refresh is asked for** when a block is interpreted: a command of that name is executed. -/
def AsksRefresh (block : Block) (m : Machine) : Prop :=
  ∃ x, e.ExecutedWithin block m x ∧ x.command.head? = some "refresh"

/-- A refresh is asked for by one command, or within what it calls. -/
def AsksRefreshAt (c : Command) (m : Machine) : Prop :=
  c.head? = some "refresh" ∨
    ∃ o caller, e.call? c m = some (o, caller) ∧ e.AsksRefresh o.commands (enterCall o caller)

theorem asksRefresh_iff (block : Block) (m : Machine) :
    e.AsksRefresh block m ↔ ∃ x ∈ e.executions block m, e.AsksRefreshAt x.command x.before := by
  constructor
  · rintro ⟨x, within, hx⟩
    cases within with
    | own executed => exact ⟨x, executed, Or.inl hx⟩
    | called executed calls inside => exact ⟨_, executed, Or.inr ⟨_, _, calls, x, inside, hx⟩⟩
  · rintro ⟨x, executed, hx | ⟨o, caller, calls, y, inside, hy⟩⟩
    · exact ⟨x, .own executed, hx⟩
    · exact ⟨y, .called executed calls inside, hy⟩

theorem asksRefreshAt_of_quiet {c : Command} {m : Machine} (quiet : e.call? c m = none) :
    e.AsksRefreshAt c m ↔ c.head? = some "refresh" := by
  refine or_iff_left ?_
  rintro ⟨o, caller, calls, -⟩
  rw [quiet] at calls
  cases calls

theorem asksRefreshAt_of_call {c : Command} {m caller : Machine} {o : ScriptOption}
    (calls : e.call? c m = some (o, caller)) :
    e.AsksRefreshAt c m ↔ e.AsksRefresh o.commands (enterCall o caller) := by
  constructor
  · rintro (hc | ⟨o', caller', calls', asks⟩)
    · exact absurd hc (e.head?_of_call calls)
    · rw [calls] at calls'
      cases calls'
      exact asks
  · exact fun asks => Or.inr ⟨o, caller, calls, asks⟩

theorem refresh_of_call {c : Command} {m caller : Machine} {o : ScriptOption}
    (calls : e.call? c m = some (o, caller)) :
    (enterCall o caller).session.refresh = m.session.refresh := by
  obtain ⟨name, notices, -, -, rfl⟩ := e.call?_eq_some_iff.1 calls
  exact congrArg (·.refresh) (e.prepare_session _ m)

/-- A command asks for a refresh or leaves it at what was asked before, if this holds of the
commands that it calls. -/
theorem refresh_execute_iff {c : Command} {m : Machine}
    (inside : ∀ o caller, e.call? c m = some (o, caller) →
      ((e.interpret o.commands (enterCall o caller)).session.refresh = true ↔
        (enterCall o caller).session.refresh = true ∨
          e.AsksRefresh o.commands (enterCall o caller))) :
    (e.execute (e.nestedFrom m) c m).session.refresh = true ↔
      m.session.refresh = true ∨ e.AsksRefreshAt c m := by
  cases hcall : e.call? c m with
  | none =>
      rw [(e.execute_session_of_quiet _ hcall).2, e.asksRefreshAt_of_quiet hcall, Bool.or_eq_true,
        decide_eq_true_eq]
  | some found =>
      obtain ⟨o, caller⟩ := found
      rw [(e.execute_session_of_call hcall).2, inside o caller hcall, e.refresh_of_call hcall,
        e.asksRefreshAt_of_call hcall]

/-- **A refresh is asked for at the end if it was asked for before or on the way.** -/
theorem refresh_interpret_iff (block : Block) (m : Machine) :
    (e.interpret block m).session.refresh = true ↔
      m.session.refresh = true ∨ e.AsksRefresh block m := by
  -- the induction is on the levels that are left, for what is called has fewer of them
  induction hlevels : maxExecDepth - m.session.depth using Nat.strongRecOn
    generalizing block m with
  | _ levels ih =>
      have step : ∀ x ∈ e.executions block m, x.after.session.refresh = true ↔
          x.before.session.refresh = true ∨ e.AsksRefreshAt x.command x.before := by
        intro x hx
        rw [e.after_execution hx]
        refine e.refresh_execute_iff fun o caller calls => ih _ ?_ _ _ rfl
        have hdepth := e.depth_of_execution hx
        obtain ⟨hcaller, hlimit⟩ := e.depth_of_call? calls
        rw [depth_enterCall]
        omega
      rw [interpret_eq, asksRefresh_iff]
      refine iff_of_eq (e.view_runBlock (fun n => n.session.refresh = true)
        (fun xs asked => asked ∨ ∃ x ∈ xs, e.AsksRefreshAt x.command x.before) ?none
        (e.nestedFrom m) block (m.setSuccess true) ?held ?ran)
      case none => exact fun asked => propext (or_iff_left (by simp))
      case held =>
        intro x hx held
        obtain ⟨-, hverdict, hafter⟩ := e.mem_steps hx
        rw [hafter, e.refresh_of_held (hverdict ▸ held)]
      case ran =>
        intro x hx run xs
        have hexec : x ∈ e.executions block m := mem_executed_iff.2 ⟨hx, run⟩
        simp [step x hexec, or_assoc]

/-! ## The account -/

/-- **Both session flags can be read off the executions.** A block without retry chains, in a
state that stands in none, has all its permitted commands executed, and ends with the success flag
up if each of them is healthy. In any block one execution keeps the flag up if and only if the
command is healthy, so nothing else that goes wrong with it matters. And a run of any block ends
with a refresh asked for if and only if a command of that name was executed, at whatever depth of
calls. -/
theorem flags_accounted :
    (∀ (block : Block) (m : Machine), (∀ c ∈ block, ¬ OpensChain c) → m.state.retryCount = 0 →
      (e.executions block m).map Step.command = e.permitted m.state.zone block ∧
      ((e.interpret block m).session.success = true ↔
        ∀ x ∈ e.executions block m, e.Healthy x.command x.before)) ∧
    (∀ (block : Block) (m : Machine), ∀ x ∈ e.executions block m,
      (x.after.session.success = true ↔
        x.before.session.success = true ∧ e.Healthy x.command x.before)) ∧
    (∀ (block : Block) (m : Machine), (e.run block m).session.refresh = true ↔
      ∃ x, e.ExecutedWithin block { m with session := { m.session with refresh := false } } x ∧
        x.command.head? = some "refresh") := by
  refine ⟨?_, ?_, ?_⟩
  · intro block m plain fresh
    exact ⟨e.executed_of_prelude _ plain fresh, e.success_interpret_iff plain m⟩
  · exact fun block m x hx => e.success_of_execution hx
  · intro block m
    rw [run, refresh_interpret_iff]
    exact or_iff_right Bool.false_ne_true

/-- A download that nobody answers, and a call of an option. -/
def unansweredRun : Block := [["download", "u", "sdmc:/f"], ["exec", "A"]]

/-- Beside a boot script whose option `A` refreshes, both commands are executed. Not both are
healthy, and a refresh is executed within the call. -/
theorem unansweredRun_accounted :
    ((∀ c ∈ unansweredRun, ¬ OpensChain c) ∧ failedRun.state.retryCount = 0) ∧
    (lonely.executions unansweredRun failedRun).map Step.command = unansweredRun ∧
    (¬ ∀ x ∈ lonely.executions unansweredRun failedRun, lonely.Healthy x.command x.before) ∧
    ∃ x, lonely.ExecutedWithin unansweredRun failedRun x ∧ x.command.head? = some "refresh" := by
  have plain : ∀ c ∈ unansweredRun, ¬ OpensChain c := by decide
  obtain ⟨account, -, refreshed⟩ := lonely.flags_accounted
  obtain ⟨ran, up⟩ := account unansweredRun failedRun plain rfl
  refine ⟨⟨plain, rfl⟩, ?_, ?_, ?_⟩
  · rw [ran]
    decide +kernel
  · rw [← up]
    decide +kernel
  · refine (refreshed unansweredRun failedRun).1 ?_
    decide +kernel

end Engine

end PackageScript
