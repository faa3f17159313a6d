import PackageScript.Volume
import PackageScript.World

set_option autoImplicit false

/-! # The setting of a command

What a command knows besides its arguments: the configuration, the host, where the running
script lies and which of its options is being run.
-/

namespace PackageScript

/-- What a command knows besides its arguments. -/
structure Setting where
  config : Config
  host : Host
  /-- The directory of the running script, with a slash at its end. -/
  scriptDir : String
  /-- The option that is being run. -/
  optionName : String

namespace Setting

variable (s : Setting)

def locate (arg : String) : HostPath := s.config.hostPath (scriptPath arg)

/-- Asks a collaborator for something that must not fail. -/
def require (r : Request) (e : ScriptError) : Action Unit := do
  if ← Action.request s.host r then pure () else Action.fail e

end Setting

end PackageScript
