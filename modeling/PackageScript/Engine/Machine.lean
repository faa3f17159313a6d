import PackageScript.Engine.State
import PackageScript.Placeholder.Resolve
import PackageScript.World

set_option autoImplicit false

/-! # Machines

A machine is everything that a run changes: the world, the session and the state. An engine is
everything that it does not change.
-/

namespace PackageScript

/-- Everything that a run changes. -/
structure Machine where
  world : World
  session : Session
  state : State

namespace Machine

def noteAll (m : Machine) (notices : List Notice) : Machine :=
  { m with world := m.world.noteAll notices }

def note (m : Machine) (notice : Notice) : Machine := m.noteAll [notice]

/-- The machine after lookups that left a trail. -/
def followTrail (m : Machine) (t : Placeholder.Trail) : Machine :=
  { m with
    world :=
      { m.world with
        requests := m.world.requests ++ t.requests
        notices := m.world.notices ++ t.notices } }

def setSuccess (m : Machine) (success : Bool) : Machine :=
  { m with session := { m.session with success := success } }

/-- The machine with the success flag kept or dropped. -/
def require (m : Machine) (healthy : Bool) : Machine :=
  m.setSuccess (m.session.success && healthy)

def mapState (m : Machine) (f : State → State) : Machine := { m with state := f m.state }

end Machine

/-- Everything that a run does not change. -/
structure Engine where
  config : Config
  host : Host
  /-- Whether no transcript is kept. -/
  quiet : Bool

namespace Engine

/-- Adds a line to the transcript, unless none is kept. -/
def transcribe (e : Engine) (line : String) (m : Machine) : Machine :=
  if e.quiet then m else m.mapState (·.write line)

/-- What lookups in a machine depend on. The host remembers what it was asked before. -/
def context (e : Engine) (m : Machine) : Placeholder.Context :=
  ⟨e.config, e.host.after m.world.requests, m.world.files⟩

end Engine

end PackageScript
