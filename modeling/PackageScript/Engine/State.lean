import PackageScript.Placeholder.Bindings
import PackageScript.Platform
import PackageScript.Text.Search

set_option autoImplicit false

/-! # The state of a run

A session is shared by a run and every run of the boot script that it calls. A state belongs to
one of these runs alone: its retry chains, its platform sections, its sources, its log switch and
its transcript.
-/

namespace PackageScript

/-- What a run shares with the runs that it calls. -/
structure Session where
  /-- Whether the current retry chain is healthy. -/
  success : Bool
  /-- Whether a refresh was asked for. -/
  refresh : Bool
  /-- How many calls of the boot script are open. -/
  depth : Nat
deriving DecidableEq

def Session.fresh : Session := ⟨true, false, 0⟩

/-- What belongs to one run. -/
structure State where
  /-- The number of retry chains so far. -/
  retryCount : Nat
  /-- Whether a platform marker was seen. -/
  inSection : Bool
  /-- The platform of the section, if it is that of the device. -/
  gate : Option Platform
  bindings : Bindings
  /-- Whether commands are written to the log file. -/
  logging : Bool
  /-- The directory of the script, with a slash at its end unless it is empty. -/
  scriptDir : String
  /-- The option that is being run. -/
  optionName : String
  /-- The transcript. -/
  log : String
deriving DecidableEq

namespace State

/-- A directory with a slash at its end, unless it is empty. -/
def withSlash (dir : String) : String :=
  if dir.isEmpty || Text.endsWith dir '/' then dir else dir ++ "/"

def start (scriptDir optionName : String) : State where
  retryCount := 0
  inSection := false
  gate := none
  bindings := .empty
  logging := false
  scriptDir := withSlash scriptDir
  optionName := optionName
  log := ""

def enterSection (s : State) (named device : Platform) : State :=
  { s with inSection := true, gate := if named = device then some named else none }

/-- Whether a command may run where the run stands. Only strict runs hold commands of sections
for another platform back. -/
def permits (s : State) (strict : Bool) : Bool :=
  !strict || !s.inSection || s.gate.isSome

def write (s : State) (line : String) : State :=
  { s with log := s.log ++ line ++ (if Text.endsWith line '\n' then "" else "\n") }

/-- Binds a source unless it already has a value. -/
def bind (s : State) (source : Source) (value : String) : State :=
  { s with bindings := s.bindings.bind source value }

end State

end PackageScript
