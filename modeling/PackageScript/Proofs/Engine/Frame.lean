import PackageScript.Engine.Interpret

set_option autoImplicit false

/-! # What executing a command leaves alone

A command of a block may change the world, the session, the sources, the log switch and the
transcript. It never changes which retry chain or platform section the run stands in: only
markers do that, and markers are not executed. And it can lower the success flag of the session
but never raise it, whatever runs inside a call of the boot script.

Both facts are read off one case rule for each function: `Engine.perform_cases` lists what a
resolved command can do, and the lemmas after it go through these cases once.
-/

namespace PackageScript

namespace State

/-- What a state keeps while commands are executed: the sources, the log switch and the
transcript are blanked, everything else stands. -/
def frame (s : State) : State := { s with bindings := .empty, logging := false, log := "" }

theorem retryCount_eq_of_frame {s t : State} (h : s.frame = t.frame) :
    s.retryCount = t.retryCount := by
  have hc : s.frame.retryCount = t.frame.retryCount := by rw [h]
  exact hc

end State

namespace Engine

variable (e : Engine)

/-! ## The parts of an execution -/

/-- **What a resolved command can do.** It is told to be unknown or too short, or it calls the
boot script, binds a source, asks for a refresh, toggles the log or acts on the world. -/
theorem perform_cases {motive : Machine → Prop} (call : Block → Machine → Machine)
    (name : String) (args : List String) (m : Machine)
    (told : ∀ notice, motive (m.note notice))
    (called : ∀ option, motive (e.exec call option m))
    (bound : ∀ source arg, motive (bindSource source arg m))
    (refreshed : motive { m with session := { m.session with refresh := true } })
    (logged : motive (m.mapState fun s => { s with logging := !s.logging }))
    (acted : ∀ op, motive (e.runOnWorld op name args m)) :
    motive (e.perform call name args m) := by
  simp only [perform]
  split
  · exact told _
  · split
    · exact told _
    · split
      · exact called _
      · exact bound _ _
      · exact refreshed
      · exact logged
      · exact acted _

theorem transcribe_world (line : String) (m : Machine) :
    (e.transcribe line m).world = m.world := by
  unfold transcribe
  split <;> rfl

theorem transcribe_state (line : String) (m : Machine) :
    (e.transcribe line m).state = if e.quiet then m.state else m.state.write line := by
  unfold transcribe
  split <;> rfl

@[simp] theorem transcribe_session (line : String) (m : Machine) :
    (e.transcribe line m).session = m.session := by
  unfold transcribe
  split <;> rfl

@[simp] theorem transcribe_frame (line : String) (m : Machine) :
    (e.transcribe line m).state.frame = m.state.frame := by
  unfold transcribe
  split <;> rfl

@[simp] theorem report_session (err : ScriptError) (m : Machine) :
    (e.report err m).session = m.session := by
  simp only [report]
  split
  · rw [transcribe_session]
    rfl
  · rfl

@[simp] theorem report_frame (err : ScriptError) (m : Machine) :
    (e.report err m).state.frame = m.state.frame := by
  simp only [report]
  split
  · rw [transcribe_frame]
    rfl
  · rfl

@[simp] theorem logCommand_session (command : Command) (m : Machine) :
    (e.logCommand command m).session = m.session := by
  unfold logCommand
  split
  · simp only [appendLog]
    split <;> rfl
  · rfl

@[simp] theorem logCommand_state (command : Command) (m : Machine) :
    (e.logCommand command m).state = m.state := by
  unfold logCommand
  split
  · simp only [appendLog]
    split <;> rfl
  · rfl

/-! ## The frame of the state -/

theorem bindSource_frame (source : Source) (arg : String) (m : Machine) :
    (bindSource source arg m).state.frame = m.state.frame := by
  unfold bindSource
  split <;> rfl

theorem runOnWorld_frame (op : Op) (name : String) (args : List String) (m : Machine) :
    (e.runOnWorld op name args m).state.frame = m.state.frame := by
  unfold runOnWorld
  split
  · rfl
  · rw [report_frame]

/-- A call of the boot script adds to the transcript of the caller and changes nothing else of
its state. -/
theorem exec_frame (call : Block → Machine → Machine) (option : String) (m : Machine) :
    (e.exec call option m).state.frame = m.state.frame := by
  unfold exec
  split <;> rfl

theorem perform_frame (call : Block → Machine → Machine) (name : String) (args : List String)
    (m : Machine) : (e.perform call name args m).state.frame = m.state.frame := by
  apply e.perform_cases call name args m
    (motive := fun m' => m'.state.frame = m.state.frame)
  case told => exact fun _ => rfl
  case called => exact fun option => e.exec_frame call option m
  case bound => exact fun source arg => bindSource_frame source arg m
  case refreshed => rfl
  case logged => rfl
  case acted => exact fun op => e.runOnWorld_frame op name args m

/-- **Executing a command leaves the frame of the state alone**, whatever it calls. -/
theorem execute_frame (call : Block → Machine → Machine) (command : Command) (m : Machine) :
    (e.execute call command m).state.frame = m.state.frame := by
  simp only [execute]
  split
  · rfl
  · rw [logCommand_state, perform_frame, prepare, transcribe_frame]
    rfl

/-! ## The success flag -/

theorem success_of_require {m : Machine} {healthy : Bool}
    (h : (m.require healthy).session.success = true) : m.session.success = true := by
  simp only [Machine.require, Machine.setSuccess, Bool.and_eq_true] at h
  exact h.1

theorem success_of_runOnWorld {op : Op} {name : String} {args : List String} {m : Machine}
    (h : (e.runOnWorld op name args m).session.success = true) : m.session.success = true := by
  unfold runOnWorld at h
  split at h
  · exact success_of_require h
  · rwa [report_session] at h

/-- Whatever the called commands do to the flag, a caller whose flag was down gets it back
down. -/
theorem success_of_exec {call : Block → Machine → Machine} {option : String} {m : Machine}
    (h : (e.exec call option m).session.success = true) : m.session.success = true := by
  unfold exec at h
  split at h
  · exact h
  · simp only [leaveCall, Bool.and_eq_true] at h
    exact h.1

theorem success_of_perform {call : Block → Machine → Machine} {name : String}
    {args : List String} {m : Machine}
    (h : (e.perform call name args m).session.success = true) : m.session.success = true := by
  revert h
  apply e.perform_cases call name args m
    (motive := fun m' => m'.session.success = true → m.session.success = true)
  case told => exact fun _ h => h
  case called => exact fun _ h => e.success_of_exec h
  case bound =>
    intro source arg h
    unfold bindSource at h
    split at h <;> exact h
  case refreshed => exact fun h => h
  case logged => exact fun h => h
  case acted => exact fun _ h => e.success_of_runOnWorld h

/-- **Executing a command never raises the success flag**, whatever it calls. -/
theorem success_of_execute {call : Block → Machine → Machine} {command : Command} {m : Machine}
    (h : (e.execute call command m).session.success = true) : m.session.success = true := by
  simp only [execute] at h
  split at h
  · exact h
  · rw [logCommand_session] at h
    have hp := e.success_of_perform h
    rw [prepare, transcribe_session] at hp
    exact success_of_require hp

end Engine

end PackageScript
