import PackageScript.Engine.Interpret
import PackageScript.Path.ScriptPath
import PackageScript.Script.Printer

set_option autoImplicit false

/-! # Running the options of a script

A script is read from its file each time. A script that does not exist is made first: with two
options for a reboot and a shutdown if names for them are given, empty otherwise.
-/

namespace PackageScript

namespace Script

/-- The text that a missing script starts with. -/
def initialText (names : Option (String × String)) : String :=
  match names with
  | some names => skeleton names
  | none => ""

/-- Makes a script that does not exist. -/
def create (path : HostPath) (names : Option (String × String)) : Action Unit := do
  Action.files (FileAction.ensureParent path)
  Action.note (.creatingScript path)
  Action.files (FileAction.writeFile path (initialText names).toUTF8)

def load (path : HostPath) (names : Option (String × String)) : Action Script := do
  if !(← Action.look fun fs => fs.exists? path) then create path names
  let text ← Action.files (FileAction.ask fun fs => fs.readText path)
  Action.noteAll ((preamble text).map Notice.droppedLine)
  pure (ofText text)

end Script

/-- What is told of one option that was run. -/
structure Report where
  /-- The script, as a script path. -/
  script : String
  option : String
  /-- Whether the success flag was set after the last command. -/
  success : Bool
  /-- Whether a refresh was asked for. -/
  refresh : Bool
  /-- The transcript. -/
  log : String
deriving DecidableEq

/-- One line about a run that took the given number of milliseconds. -/
def Report.summary (r : Report) (milliseconds : String) : String :=
  "[" ++ r.option ++ "] " ++ (if r.success then "ok" else "failed") ++ " (refresh: "
    ++ (if r.refresh then "yes" else "no") ++ ", " ++ milliseconds ++ "ms)"

/-- Runs options of one script. -/
structure Runner where
  engine : Engine
  /-- The script, as a script path. -/
  script : String
  /-- The names of the options that a missing script is made with. -/
  initialNames : Option (String × String)

namespace Runner

variable (r : Runner)

def options : Action Script := Script.load (r.engine.config.hostPath r.script) r.initialNames

/-- The machine that a run of an option starts from. -/
def startMachine (name : String) (w : World) : Machine where
  world := w.note (.running name r.script)
  session := .fresh
  state := .start (ScriptPath.directory r.script) name

/-- Runs a block as if it were an option of the script. -/
def runBlock (name : String) (block : Block) : Action Report := fun w =>
  let m := r.engine.run block (r.startMachine name w)
  .ok ⟨r.script, name, m.session.success, m.session.refresh, m.state.log⟩ m.world

/-- Runs the first option of a given name. -/
def runOption (name : String) : Action Report := do
  let script ← r.options
  match script.option? name with
  | some o => r.runBlock o.name o.commands
  | none => Action.fail (.noOption name r.script)

end Runner

end PackageScript
