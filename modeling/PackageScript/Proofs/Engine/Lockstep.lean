import PackageScript.Proofs.Engine.Zones

set_option autoImplicit false

/-! # Runs in lockstep

Two runs take the same steps as long as their machines agree on what decides the steps. What else
the machines have in common is a relation between them, and `Engine.Lockstep` lists what such a
relation has to bear: each single thing that a step can do to a machine, done on both sides. From
these few facts follows that the relation holds behind every command, every block and every call
(`Lockstep.execute`, `Lockstep.runBlock`, `Lockstep.nested`), so that a comparison of two runs
never has to go through the steps again.

The engines may differ as well. The relation is a family: one member for a run, and one, `inside`,
for the runs that it calls, whose state starts anew.
-/

namespace PackageScript

/-- A state without its platform section. -/
def State.outside (s : State) : State := { s with inSection := false, gate := none }

/-- **A change of the state as a step makes it**: it passes over the transcript, and it does not
ask for the platform section. -/
structure State.IsStep (f : State → State) : Prop where
  log : ∀ s text, f { s with log := text } = { f s with log := text }
  outside : ∀ s, (f s).outside = (f s.outside).outside

/-- **Machines that agree on what decides a step**, but for the section, which only the verdict on
a command asks for. -/
structure Machine.Concur (m m' : Machine) : Prop where
  files : m.world.files = m'.world.files
  success : m.session.success = m'.session.success
  depth : m.session.depth = m'.session.depth
  retryCount : m.state.retryCount = m'.state.retryCount
  bindings : m.state.bindings = m'.state.bindings
  logging : m.state.logging = m'.state.logging
  scriptDir : m.state.scriptDir = m'.state.scriptDir

namespace Engine

/-- **What a relation between the machines of two engines has to bear** for their runs to stay
related: the engines resolve and decide alike, and each thing that a step can do keeps the
relation. -/
structure Lockstep {ι : Type} (e e' : Engine) (inside : ι) (R : ι → Machine → Machine → Prop) :
    Prop where
  config : e.config = e'.config
  platform : e.host.platform = e'.host.platform
  concur {i : ι} {m m' : Machine} : R i m m' → m.Concur m'
  resolved {i : ι} {m m' : Machine} : R i m m' → ∀ c,
    (e.context m).resolveCommand m.state.bindings c
      = (e'.context m').resolveCommand m'.state.bindings c
  noteAll {i : ι} {m m' : Machine} : R i m m' → ∀ notices,
    R i (m.noteAll notices) (m'.noteAll notices)
  followTrail {i : ι} {m m' : Machine} : R i m m' → ∀ t, R i (m.followTrail t) (m'.followTrail t)
  setSuccess {i : ι} {m m' : Machine} : R i m m' → ∀ success,
    R i (m.setSuccess success) (m'.setSuccess success)
  refresh {i : ι} {m m' : Machine} : R i m m' →
    R i { m with session := { m.session with refresh := true } }
      { m' with session := { m'.session with refresh := true } }
  transcribe {i : ι} {m m' : Machine} : R i m m' → ∀ line,
    R i (e.transcribe line m) (e'.transcribe line m')
  mapState {i : ι} {m m' : Machine} {f : State → State} : State.IsStep f → R i m m' →
    R i (m.mapState f) (m'.mapState f)
  setFiles {i : ι} {m m' : Machine} : R i m m' → ∀ fs,
    R i { m with world := { m.world with files := fs } }
      { m' with world := { m'.world with files := fs } }
  /-- An operation on the world ends the same way on both sides. -/
  act {i : ι} {m m' : Machine} : R i m m' → ∀ op args,
    (∃ healthy w w', (e.setting m).run op args m.world = .ok healthy w ∧
        (e'.setting m').run op args m'.world = .ok healthy w' ∧
        R i { m with world := w } { m' with world := w' }) ∨
      (∃ err w w', (e.setting m).run op args m.world = .error err w ∧
        (e'.setting m').run op args m'.world = .error err w' ∧
        R i { m with world := w } { m' with world := w' })
  enterCall {i : ι} {m m' : Machine} : R i m m' → ∀ o, R inside (enterCall o m) (enterCall o m')
  leaveCall {i : ι} {m m' after after' : Machine} : R i m m' → R inside after after' →
    R i (leaveCall m after) (leaveCall m' after')

/-- What happens at a command is told by the retry chain, the flag and the section. A retry marker
does not even ask for the section. -/
theorem verdict_congr {m m' : Machine} (h : m.Concur m') (strict : Bool) {c : Command}
    (hzone : OpensChain c ∨ m.state.zone.permits strict = m'.state.zone.permits strict) :
    m.verdict strict c = m'.verdict strict c := by
  by_cases hc : OpensChain c
  · rw [verdict_of_opens hc, verdict_of_opens hc, h.success, h.retryCount]
  · have hpermits : m.state.permits strict = m'.state.permits strict := hzone.resolve_left hc
    cases c with
    | nil => rfl
    | cons name args => rw [Machine.verdict, Machine.verdict, hpermits, h.success, h.retryCount]

/-- Which option a call means is told by the configuration, the files, the depth and where the
script lies. -/
theorem calledOption_congr {e e' : Engine} {m m' : Machine} (config : e.config = e'.config)
    (files : m.world.files = m'.world.files) (depth : m.session.depth = m'.session.depth)
    (scriptDir : m.state.scriptDir = m'.state.scriptDir) (option : String) :
    e.calledOption option m = e'.calledOption option m' := by
  rw [calledOption, calledOption, bootScript, bootScript, config, files, depth, scriptDir]

namespace Lockstep

variable {ι : Type} {e e' : Engine} {inside : ι} {R : ι → Machine → Machine → Prop}
variable {i : ι} {m m' : Machine}

/-! ## One command -/

theorem note (sim : Lockstep e e' inside R) (h : R i m m') (notice : Notice) :
    R i (m.note notice) (m'.note notice) := sim.noteAll h [notice]

theorem require (sim : Lockstep e e' inside R) (h : R i m m') (healthy : Bool) :
    R i (m.require healthy) (m'.require healthy) := by
  rw [Machine.require, Machine.require, (sim.concur h).success]
  exact sim.setSuccess h _

theorem prepare (sim : Lockstep e e' inside R) (h : R i m m')
    (r : Placeholder.CommandResolution) : R i (e.prepare r m) (e'.prepare r m') :=
  sim.transcribe (sim.require (sim.followTrail h _) _) _

theorem report (sim : Lockstep e e' inside R) (h : R i m m') (err : ScriptError) :
    R i (e.report err m) (e'.report err m') := by
  unfold Engine.report
  dsimp only
  split
  · exact sim.transcribe (sim.note h _) _
  · exact sim.note h _

theorem runOnWorld (sim : Lockstep e e' inside R) (h : R i m m') (op : Op) (name : String)
    (args : List String) : R i (e.runOnWorld op name args m) (e'.runOnWorld op name args m') := by
  rw [Engine.runOnWorld, Engine.runOnWorld]
  rcases sim.act h op args with ⟨healthy, w, w', hrun, hrun', hw⟩ | ⟨err, w, w', hrun, hrun', hw⟩
  · rw [hrun, hrun']
    exact sim.require hw healthy
  · rw [hrun, hrun']
    exact sim.report hw _

theorem bindSource (sim : Lockstep e e' inside R) (h : R i m m') (source : Source)
    (arg : String) : R i (bindSource source arg m) (bindSource source arg m') := by
  rw [Engine.bindSource, Engine.bindSource, (sim.concur h).bindings]
  split
  · exact sim.note h _
  · exact sim.mapState ⟨fun _ _ => rfl, fun _ => rfl⟩ h

theorem logCommand (sim : Lockstep e e' inside R) (h : R i m m') (command : Command) :
    R i (e.logCommand command m) (e'.logCommand command m') := by
  rw [Engine.logCommand, Engine.logCommand, (sim.concur h).logging]
  split
  · rw [appendLog, appendLog, (sim.concur h).files, sim.config]
    dsimp only
    split
    · exact sim.setFiles h _
    · exact sim.note (sim.setFiles h _) _
  · exact h

/-- **What called runs are relied on for**: inside a call they keep the relation, if they start
in the same section. -/
def Carries (inside : ι) (R : ι → Machine → Machine → Prop)
    (call call' : Block → Machine → Machine) : Prop :=
  ∀ block m m', R inside m m' → m.state.zone = m'.state.zone →
    R inside (call block m) (call' block m')

variable {call call' : Block → Machine → Machine}

theorem exec (sim : Lockstep e e' inside R) (hcall : Carries inside R call call')
    (h : R i m m') (option : String) : R i (e.exec call option m) (e'.exec call' option m') := by
  have concur := sim.concur h
  rw [Engine.exec, Engine.exec,
    calledOption_congr sim.config concur.files concur.depth concur.scriptDir]
  split
  · exact sim.noteAll h _
  · next notices o _ =>
      have hnoted := sim.noteAll h notices
      exact sim.leaveCall hnoted (hcall o.commands _ _ (sim.enterCall hnoted o) rfl)

theorem perform (sim : Lockstep e e' inside R) (hcall : Carries inside R call call')
    (h : R i m m') (name : String) (args : List String) :
    R i (e.perform call name args m) (e'.perform call' name args m') := by
  unfold Engine.perform
  dsimp only
  split
  · exact sim.note h _
  · split
    · exact sim.note h _
    · split
      · exact sim.exec hcall h _
      · exact sim.bindSource h _ _
      · exact sim.refresh h
      · exact sim.mapState ⟨fun _ _ => rfl, fun _ => rfl⟩ h
      · exact sim.runOnWorld h _ _ _

/-- **Executing a command keeps the relation.** -/
theorem execute (sim : Lockstep e e' inside R) (hcall : Carries inside R call call')
    (h : R i m m') (c : Command) : R i (e.execute call c m) (e'.execute call' c m') := by
  rw [Engine.execute, Engine.execute, sim.resolved h]
  split
  · exact h
  · exact sim.logCommand (sim.perform hcall (sim.prepare h _) _ _) _

/-! ## A run -/

theorem countChain (sim : Lockstep e e' inside R) (h : R i m m') :
    R i m.countChain m'.countChain := sim.mapState ⟨fun _ _ => rfl, fun _ => rfl⟩ h

theorem openChain (sim : Lockstep e e' inside R) (h : R i m m') :
    R i (e.openChain m) (e'.openChain m') := by
  have hcount := sim.countChain h
  rw [Engine.openChain, Engine.openChain, (sim.concur hcount).retryCount]
  exact sim.transcribe (sim.note (sim.setSuccess hcount true) _) _

theorem closeChains (sim : Lockstep e e' inside R) (h : R i m m') :
    R i (closeChains m) (closeChains m') := by
  have hcount := sim.countChain h
  rw [Engine.closeChains, Engine.closeChains, (sim.concur hcount).retryCount]
  exact sim.note hcount _

theorem advance (sim : Lockstep e e' inside R) (hcall : Carries inside R call call')
    (h : R i m m') {c : Command}
    (hverdict : m.verdict e.config.strictSections c = m'.verdict e.config.strictSections c) :
    R i (e.advance call c m) (e'.advance call' c m') := by
  rw [Engine.advance, Engine.advance, ← sim.config, ← sim.platform, hverdict]
  split
  · exact h
  · exact h
  · exact sim.openChain h
  · exact sim.closeChains h
  · exact sim.mapState ⟨fun _ _ => rfl, fun _ => rfl⟩ h
  · exact sim.note h _
  · exact sim.execute hcall h c

/-- **Blocks run in lockstep** from machines that are related and stand in the same section. -/
theorem runBlock (sim : Lockstep e e' inside R) (hcall : Carries inside R call call')
    (block : Block) (h : R i m m') (hzone : m.state.zone = m'.state.zone) :
    R i (e.runBlock call block m) (e'.runBlock call' block m') := by
  induction block generalizing m m' with
  | nil => exact h
  | cons c rest ih =>
      have hverdict : m.verdict e.config.strictSections c
          = m'.verdict e.config.strictSections c :=
        verdict_congr (sim.concur h) _ (Or.inr (by rw [hzone]))
      have hadvance := sim.advance hcall h hverdict
      rw [runBlock_cons, runBlock_cons, ← sim.config, hverdict]
      split
      · exact hadvance
      · exact ih hadvance (by rw [zone_advance, zone_advance, hzone, sim.platform])

/-- **Calls run in lockstep, however deep they are nested.** -/
theorem nested (sim : Lockstep e e' inside R) (budget : Nat) :
    Carries inside R (e.nested budget) (e'.nested budget) := by
  induction budget with
  | zero => exact fun _ _ _ h _ => h
  | succ budget ih =>
      intro block m m' h hzone
      show R inside (e.interpretWithin budget block m) (e'.interpretWithin budget block m')
      rw [interpretWithin_eq, interpretWithin_eq]
      exact sim.runBlock ih block (sim.setSuccess h true) hzone

/-- **Interpretations run in lockstep.** -/
theorem interpret (sim : Lockstep e e' inside R) (block : Block) (h : R i m m')
    (hzone : m.state.zone = m'.state.zone) :
    R i (e.interpret block m) (e'.interpret block m') := by
  rw [interpret_eq, interpret_eq, nestedFrom, nestedFrom, (sim.concur h).depth]
  exact sim.runBlock (sim.nested _) block (sim.setSuccess h true) hzone

end Lockstep

end Engine

end PackageScript
