import PackageScript.Proofs.Engine.Lockstep

set_option autoImplicit false

/-! # The transcript is inert

An engine that keeps a transcript and one that keeps none run in lockstep: what they leave differs
in the transcript alone. The same comparison follows the two transcripts. The one stays the text
that it was and the other only grows, whether the run itself writes to it, a refused command does,
or a call hands over what it wrote.
-/

namespace PackageScript

/-- **Machines of a run without a transcript and of one with it.** They agree on everything else,
the first transcript still is the text `texts.1`, and the second began as the text `texts.2`. -/
structure Machine.Muted (texts : String × String) (m m' : Machine) : Prop where
  world : m.world = m'.world
  session : m.session = m'.session
  state : { m.state with log := "" } = { m'.state with log := "" }
  kept : m.state.log = texts.1
  begun : ∃ added, m'.state.log = texts.2 ++ added

namespace Machine.Muted

variable {texts : String × String} {m m' : Machine}

theorem concur (h : m.Muted texts m') : m.Concur m' where
  files := congrArg (·.files) h.world
  success := congrArg (·.success) h.session
  depth := congrArg (·.depth) h.session
  retryCount := congrArg (·.retryCount) h.state
  bindings := congrArg (·.bindings) h.state
  logging := congrArg (·.logging) h.state
  scriptDir := congrArg (·.scriptDir) h.state

theorem optionName (h : m.Muted texts m') : m.state.optionName = m'.state.optionName :=
  congrArg (·.optionName) h.state

theorem mapWorld (h : m.Muted texts m') (f : World → World) :
    Muted texts { m with world := f m.world } { m' with world := f m'.world } :=
  ⟨congrArg f h.world, h.session, h.state, h.kept, h.begun⟩

theorem setWorld (h : m.Muted texts m') (w : World) :
    Muted texts { m with world := w } { m' with world := w } :=
  ⟨rfl, h.session, h.state, h.kept, h.begun⟩

theorem mapSession (h : m.Muted texts m') (f : Session → Session) :
    Muted texts { m with session := f m.session } { m' with session := f m'.session } :=
  ⟨h.world, congrArg f h.session, h.state, h.kept, h.begun⟩

theorem mapState (h : m.Muted texts m') {f : State → State}
    (hf : ∀ s text, f { s with log := text } = { f s with log := text }) :
    (m.mapState f).Muted texts (m'.mapState f) := by
  have keeps (s : State) : (f s).log = s.log := by
    have hlog := congrArg State.log (hf s s.log)
    exact hlog
  refine ⟨h.world, h.session, ?_, (keeps m.state).trans h.kept, ?_⟩
  · show { f m.state with log := "" } = { f m'.state with log := "" }
    rw [← hf, h.state, hf]
  · obtain ⟨added, hadded⟩ := h.begun
    exact ⟨added, (keeps m'.state).trans hadded⟩

theorem write (h : m.Muted texts m') (line : String) :
    m.Muted texts (m'.mapState (·.write line)) := by
  obtain ⟨added, hadded⟩ := h.begun
  refine ⟨h.world, h.session, h.state, h.kept, ?_⟩
  exact ⟨added ++ line ++ if Text.endsWith line '\n' then "" else "\n", by
    simp only [Machine.mapState, State.write, hadded, String.append_assoc]⟩

theorem enterCall (h : m.Muted texts m') (o : ScriptOption) :
    (Engine.enterCall o m).Muted ("", "") (Engine.enterCall o m') := by
  have hstate : (Engine.enterCall o m).state = (Engine.enterCall o m').state := by
    rw [Engine.enterCall, Engine.enterCall, h.concur.scriptDir]
  refine ⟨h.world, ?_, ?_, rfl, "", rfl⟩
  · rw [Engine.enterCall, Engine.enterCall, h.session]
  · rw [hstate]

/-- What a call wrote is handed over to the transcript of the caller. -/
theorem leaveCall {after after' : Machine} (h : m.Muted texts m')
    (hafter : after.Muted ("", "") after') :
    (Engine.leaveCall m after).Muted texts (Engine.leaveCall m' after') := by
  refine ⟨hafter.world, ?_, h.state, ?_, ?_⟩
  · rw [Engine.leaveCall, Engine.leaveCall, hafter.session, h.session]
  · show m.state.log ++ after.state.log = texts.1
    rw [hafter.kept, String.append_empty, h.kept]
  · obtain ⟨added, hadded⟩ := h.begun
    refine ⟨added ++ after'.state.log, ?_⟩
    show m'.state.log ++ after'.state.log = texts.2 ++ (added ++ after'.state.log)
    rw [hadded, String.append_assoc]

end Machine.Muted

namespace Engine

variable (e : Engine)

/-- **Runs without a transcript and with one go in lockstep.** -/
theorem muted_lockstep :
    Lockstep { e with quiet := true } { e with quiet := false } ("", "") Machine.Muted where
  config := rfl
  platform := rfl
  concur h := h.concur
  resolved {i m m'} h c := by
    show (e.context m).resolveCommand _ c = (e.context m').resolveCommand _ c
    rw [context, context, h.world, h.concur.bindings]
  noteAll h notices := h.mapWorld (·.noteAll notices)
  followTrail h t := h.mapWorld fun w =>
    { w with requests := w.requests ++ t.requests, notices := w.notices ++ t.notices }
  setSuccess h success := h.mapSession fun s => { s with success := success }
  refresh h := h.mapSession fun s => { s with refresh := true }
  transcribe h line := h.write line
  mapState hf h := h.mapState hf.log
  setFiles h fs := h.mapWorld fun w => { w with files := fs }
  act {i m m'} h op args := by
    have hrun : (setting { e with quiet := true } m).run op args m.world
        = (setting { e with quiet := false } m').run op args m'.world := by
      rw [setting, setting, h.concur.scriptDir, h.optionName, h.world]
    rw [hrun]
    cases (setting { e with quiet := false } m').run op args m'.world with
    | ok healthy w => exact Or.inl ⟨healthy, w, w, rfl, rfl, h.setWorld w⟩
    | error err w => exact Or.inr ⟨err, w, w, rfl, rfl, h.setWorld w⟩
  enterCall h o := h.enterCall o
  leaveCall h hafter := h.leaveCall hafter

theorem interpret_muted (block : Block) (m : Machine) :
    (interpret { e with quiet := true } block m).Muted (m.state.log, m.state.log)
      (interpret { e with quiet := false } block m) :=
  e.muted_lockstep.interpret block ⟨rfl, rfl, rfl, rfl, "", (String.append_empty).symm⟩ rfl

theorem log_interpret_of_quiet (quiet : e.quiet = true) (block : Block) (m : Machine) :
    (e.interpret block m).state.log = m.state.log := by
  have he : { e with quiet := true } = e := by rw [← quiet]
  rw [← he]
  exact (e.interpret_muted block m).kept

/-- **The transcript is inert.** Whether an engine keeps a transcript makes no difference to what
the interpretation of a block leaves, the transcript aside: not to the world with its files and
requests, not to the session and not to the rest of the state. Without a transcript the text of
the state stays as it was, and with one it is only added to. -/
theorem interpret_transcript_inert (block : Block) (m : Machine) :
    let silent := interpret { e with quiet := true } block m
    let told := interpret { e with quiet := false } block m
    silent.world = told.world
      ∧ silent.session = told.session
      ∧ { silent.state with log := "" } = { told.state with log := "" }
      ∧ silent.state.log = m.state.log
      ∧ ∃ added, told.state.log = m.state.log ++ added := by
  have h := e.interpret_muted block m
  exact ⟨h.world, h.session, h.state, h.kept, h.begun⟩

end Engine

end PackageScript
