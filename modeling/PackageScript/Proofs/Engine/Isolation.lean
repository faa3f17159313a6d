import PackageScript.Proofs.Command.Past
import PackageScript.Proofs.Engine.Nesting
import PackageScript.Proofs.Engine.SuccessFlag
import PackageScript.Proofs.Engine.Transcript

set_option autoImplicit false

/-! # Calls are isolated

An option of the boot script that is called shares the files, the host and the session with its
caller, and nothing else. How it runs is told by the files, the depth, the place of the script and
what the host remembers, whatever the caller knows besides (`Engine.interpret_enterCall`): what was
asked and told before the call is a past that the run never looks at. And of the caller's state
the call changes the transcript only (`Engine.state_of_call`).
-/

namespace PackageScript

/-- A machine behind a past. -/
def Machine.behind (p : Past) (m : Machine) : Machine where
  world := m.world.behind p
  session := { m.session with refresh := p.refresh || m.session.refresh }
  state := m.state

theorem Machine.noteAll_behind (m : Machine) (p : Past) (notices : List Notice) :
    (m.behind p).noteAll notices = (m.noteAll notices).behind p := by
  rw [noteAll, noteAll, behind, behind, World.noteAll_behind]

namespace Engine

variable (e : Engine)

/-- An engine whose host was asked some things. -/
def after (asked : List Request) : Engine := { e with host := e.host.after asked }

theorem transcribe_behind (p : Past) (line : String) (m : Machine) :
    e.transcribe line (m.behind p) = ((e.after p.requests).transcribe line m).behind p := by
  unfold transcribe
  rw [after]
  split <;> rfl

/-- **A run behind a past goes in lockstep with one without it**, on the host that remembers the
requests of that past. -/
theorem behind_lockstep (p : Past) :
    Lockstep e (e.after p.requests) () fun _ m m' => m = m'.behind p where
  config := rfl
  platform := rfl
  concur := by
    rintro _ _ m rfl
    exact ⟨rfl, rfl, rfl, rfl, rfl, rfl, rfl⟩
  resolved := by
    rintro _ _ m rfl c
    rw [context, context, after, Host.after_after]
    rfl
  noteAll := by
    rintro _ _ m rfl notices
    exact m.noteAll_behind p notices
  followTrail := by
    rintro _ _ m rfl t
    simp only [Machine.followTrail, Machine.behind, World.behind, List.append_assoc]
  setSuccess := by
    rintro _ _ m rfl success
    rfl
  refresh := by
    rintro _ _ m rfl
    simp only [Machine.behind, Bool.or_true]
  transcribe := by
    rintro _ _ m rfl line
    exact e.transcribe_behind p line m
  mapState := by
    rintro _ _ m f - rfl
    rfl
  setFiles := by
    rintro _ _ m rfl fs
    rfl
  act := by
    rintro _ _ m rfl op args
    -- the only place where a collaborator is asked
    have hrun : (e.setting (m.behind p)).run op args (m.behind p).world
        = Action.putBehind p (((e.after p.requests).setting m).run op args m.world) :=
      (e.setting m).run_resumes p op args m.world
    rw [hrun]
    cases ((e.after p.requests).setting m).run op args m.world with
    | ok healthy w => exact Or.inl ⟨healthy, _, w, rfl, rfl, rfl⟩
    | error err w => exact Or.inr ⟨err, _, w, rfl, rfl, rfl⟩
  enterCall := by
    rintro _ _ m rfl o
    rfl
  leaveCall := by
    rintro _ _ m after after' rfl rfl
    rfl

/-- **An interpretation does not look back.** -/
theorem interpret_behind (p : Past) (block : Block) (m : Machine) :
    e.interpret block (m.behind p) = ((e.after p.requests).interpret block m).behind p :=
  (e.behind_lockstep p).interpret (i := ()) block rfl rfl

/-! ## The call that a command makes -/

/-- Which option a command calls is told by the name that it asks for, the files, the depth and
where the script lies. -/
theorem call?_congr {c : Command} {m m' caller : Machine} {o : ScriptOption}
    (calls : e.call? c m = some (o, caller)) (name : e.calledName? c m' = e.calledName? c m)
    (scriptDir : m'.state.scriptDir = m.state.scriptDir)
    (depth : m'.session.depth = m.session.depth) (files : m'.world.files = m.world.files) :
    ∃ caller', e.call? c m' = some (o, caller') := by
  obtain ⟨option, notices, hname, hcalled, -⟩ := e.call?_eq_some_iff.1 calls
  refine ⟨_, e.call?_eq_some_iff.2 ⟨option, notices, name.trans hname, ?_, rfl⟩⟩
  rw [← hcalled]
  apply calledOption_congr rfl
  · rw [prepare_files, prepare_files, files]
  · rw [depth_prepare, depth_prepare, depth]
  · rw [prepare_scriptDir, prepare_scriptDir, scriptDir]

/-- **Of the caller's state a call changes the transcript only.** -/
theorem state_of_call {c : Command} {m caller : Machine} {o : ScriptOption}
    (calls : e.call? c m = some (o, caller)) :
    (e.execute (e.nestedFrom m) c m).state = if e.quiet then m.state else
      { m.state with
        log := (m.state.write (e.transcriptLine c m)).log
          ++ (e.interpret o.commands (enterCall o caller)).state.log } := by
  rw [e.execute_of_call calls, returnFrom, logCommand_state, leaveCall_state,
    (e.caller_of_call calls).2.2]
  split
  · next quiet =>
      rw [e.log_interpret_of_quiet quiet]
      show { m.state with log := m.state.log ++ "" } = m.state
      rw [String.append_empty]
  · rfl

/-- **The run of a called option on its own**: what it starts from besides the host. -/
def callAlone (o : ScriptOption) (m : Machine) : Machine where
  world := .ofFiles m.world.files
  session := ⟨true, false, m.session.depth + 1⟩
  state := .start m.state.scriptDir o.name

/-- **A called option runs as it does on its own**, behind what was asked and told before it. -/
theorem interpret_enterCall (o : ScriptOption) (m : Machine) :
    e.interpret o.commands (enterCall o m) =
      ((e.after m.world.requests).interpret o.commands (callAlone o m)).behind
        ⟨m.world.requests, m.world.notices, m.session.refresh⟩ := by
  rw [← interpret_behind, interpret_eq, interpret_eq]
  -- the flag is set at the entry, whatever it was
  have hentry : (enterCall o m).setSuccess true = ((callAlone o m).behind
      ⟨m.world.requests, m.world.notices, m.session.refresh⟩).setSuccess true := by
    simp only [Machine.setSuccess, Machine.behind, World.behind, enterCall, callAlone,
      World.ofFiles, List.append_nil, Bool.or_false]
  rw [hentry]
  rfl

/-- **Calls are isolated.** Let a command call an option of the boot script, and let it ask for an
option of the same name in another machine of the same depth, with the same files and with its
script in the same place, on a host that answers alike from there on. Then it calls the same option
there, and the called run leaves the same files, makes the same requests and ends in the same
state, transcript included, whatever else the two callers know. The step runs just that, and of
the state of the caller it changes nothing but the transcript: the line of the command is added,
then the transcript of the called run, or nothing if no transcript is kept. -/
theorem exec_isolated {c : Command} {m m' caller : Machine} {o : ScriptOption}
    (calls : e.call? c m = some (o, caller))
    (name : e.calledName? c m' = e.calledName? c m)
    (scriptDir : m'.state.scriptDir = m.state.scriptDir)
    (depth : m'.session.depth = m.session.depth)
    (files : m'.world.files = m.world.files)
    (host : e.host.after (e.askedUpTo c m') = e.host.after (e.askedUpTo c m)) :
    ∃ caller', e.call? c m' = some (o, caller') ∧
      let inner := e.interpret o.commands (enterCall o caller)
      let inner' := e.interpret o.commands (enterCall o caller')
      let after := e.execute (e.nestedFrom m) c m
      inner'.world.files = inner.world.files
        ∧ (∃ asked, inner.world.requests = e.askedUpTo c m ++ asked
          ∧ inner'.world.requests = e.askedUpTo c m' ++ asked)
        ∧ inner'.state = inner.state
        ∧ inner'.session.success = inner.session.success
        ∧ after = e.returnFrom c m caller inner
        ∧ after.state = if e.quiet then m.state else
            { m.state with
              log := (m.state.write (e.transcriptLine c m)).log ++ inner.state.log } := by
  obtain ⟨caller', calls'⟩ := e.call?_congr calls name scriptDir depth files
  refine ⟨caller', calls', ?_⟩
  obtain ⟨hfiles, hasked, -⟩ := e.caller_of_call calls
  obtain ⟨hfiles', hasked', -⟩ := e.caller_of_call calls'
  -- both called runs are one and the same on its own, each behind the past of its caller
  have halone : callAlone o caller' = callAlone o caller := by
    rw [callAlone, callAlone, hfiles, hfiles', files, (e.depth_of_call? calls).1,
      (e.depth_of_call? calls').1, depth, e.scriptDir_of_call calls, e.scriptDir_of_call calls',
      scriptDir]
  have hhost : e.after caller'.world.requests = e.after caller.world.requests := by
    rw [hasked, hasked', after, after, host]
  have hinner := e.interpret_enterCall o caller
  have hinner' := e.interpret_enterCall o caller'
  rw [halone, hhost] at hinner'
  generalize (e.after caller.world.requests).interpret o.commands (callAlone o caller) = run
    at hinner hinner'
  refine ⟨?_, ⟨run.world.requests, ?_, ?_⟩, ?_, ?_, e.execute_of_call calls, e.state_of_call calls⟩
  · rw [hinner, hinner']
    rfl
  · rw [hinner, ← hasked]
    rfl
  · rw [hinner', ← hasked']
    rfl
  · rw [hinner, hinner']
    rfl
  · rw [hinner, hinner']
    rfl

/-! ### Two callers of one option -/

/-- Files with a boot script whose option `A` downloads, binds a list of its own and calls
itself. -/
def sharedFiles : FileSystem :=
  (FileSystem.empty ["card"]).setFile ["card", "boot_package.ini"]
    "[A]\ndownload u sdmc:/f\nlist x\nmake sdmc:/\x7blist(0)\x7d\nexec A\n".toUTF8

/-- A caller that has done nothing but bind a list. -/
def newCaller : Machine where
  world := .ofFiles sharedFiles
  session := .fresh
  state := { State.start "sdmc:/" "B" with bindings := Bindings.empty.set "A, B" .list }

/-- A caller behind failed retry chains, in a platform section, with the log on, with another list
bound and with a transcript. -/
def busyCaller : Machine where
  world := ⟨sharedFiles, [.reboot, .toggleBacklight], []⟩
  session := ⟨false, true, 0⟩
  state := ⟨3, true, some .mariko, Bindings.empty.set "['A']" .list, true, "sdmc:/", "C", "> old\n"⟩

/-- Both call the option that their first list item names, and the called run is the same. -/
theorem busyCaller_isolated :
    ∃ o caller caller',
      lonely.call? ["exec", "\x7blist(0)\x7d"] newCaller = some (o, caller) ∧
      lonely.call? ["exec", "\x7blist(0)\x7d"] busyCaller = some (o, caller') ∧
      let inner := lonely.interpret o.commands (enterCall o caller)
      let inner' := lonely.interpret o.commands (enterCall o caller')
      inner'.world.files = inner.world.files ∧ inner'.state = inner.state
        ∧ ∃ asked, inner.world.requests = asked
          ∧ inner'.world.requests = [.reboot, .toggleBacklight] ++ asked := by
  have found : (lonely.call? ["exec", "\x7blist(0)\x7d"] newCaller).isSome = true := by
    decide +kernel
  obtain ⟨⟨o, caller⟩, calls⟩ := Option.isSome_iff_exists.1 found
  have name : lonely.calledName? ["exec", "\x7blist(0)\x7d"] busyCaller
      = lonely.calledName? ["exec", "\x7blist(0)\x7d"] newCaller := by
    decide +kernel
  -- a host without collaborators remembers nothing
  have host : ∀ asked asked', lonely.host.after asked = lonely.host.after asked' :=
    fun _ _ => rfl
  obtain ⟨caller', calls', files, ⟨asked, hasked, hasked'⟩, state, -⟩ :=
    lonely.exec_isolated calls name rfl rfl rfl (host _ _)
  have unasked : lonely.askedUpTo ["exec", "\x7blist(0)\x7d"] newCaller = [] ∧
      lonely.askedUpTo ["exec", "\x7blist(0)\x7d"] busyCaller = [.reboot, .toggleBacklight] := by
    decide +kernel
  rw [unasked.1] at hasked
  rw [unasked.2] at hasked'
  exact ⟨o, caller, caller', calls, calls', files, state, asked, hasked, hasked'⟩

end Engine

end PackageScript
