import PackageScript.Command.Run
import PackageScript.Engine.Machine
import PackageScript.Script.Reader

set_option autoImplicit false

/-! # Executing one command

The placeholders of a command are resolved first. A command that is not known, or has too few
arguments, does nothing. No failure of a command goes further than to a notice. At the end the
command is written to the log file if the log is on by then.
-/

namespace PackageScript.Engine

variable (e : Engine)

/-- Calls of the boot script are nested at most this deep. -/
def maxExecDepth : Nat := 8

def setting (m : Machine) : Setting :=
  ⟨e.config, e.host, m.state.scriptDir, m.state.optionName⟩

/-- The value that a command binds a source to. -/
def boundValue : Source → String → String
  | .json, arg => arg
  | .list, arg => Text.unquote arg
  | _, arg => scriptPath arg

/-- Binds a source, or tells that it is bound already. -/
def bindSource (source : Source) (arg : String) (m : Machine) : Machine :=
  match m.state.bindings.get source with
  | some _ => m.note (.alreadyBound source)
  | none => m.mapState (·.bind source (boundValue source arg))

def report (err : ScriptError) (m : Machine) : Machine :=
  let m := m.note (.failed err)
  match err.cause with
  | .refused _ => e.transcribe ("[refused] " ++ err.cause.message) m
  | _ => m

def runOnWorld (op : Op) (name : String) (args : List String) (m : Machine) : Machine :=
  match (e.setting m).run op args m.world with
  | .ok healthy w => { m with world := w }.require healthy
  | .error err w => e.report { err with command := some name, args := args } { m with world := w }

/-- The boot script that a machine calls, as a script path. -/
def bootScript (m : Machine) : String := m.state.scriptDir ++ e.config.bootScriptName

/-- The option of the boot script that a call means, after what is told on the way to it. The
last notice says why there is none. -/
def calledOption (option : String) (m : Machine) : List Notice × Option ScriptOption :=
  let script := e.bootScript m
  let path := e.config.hostPath script
  if maxExecDepth ≤ m.session.depth then ([.execTooDeep option maxExecDepth], none)
  else if !m.world.files.isFile path then ([.execNoScript option script], none)
  else
    match m.world.files.readText path with
    | .error err => ([.execUnreadable option (.ofFileError err)], none)
    | .ok text =>
        let dropped := (Script.preamble text).map Notice.droppedLine
        match (Script.ofText text).option? option with
        | some o => (dropped, some o)
        | none => (dropped ++ [.execNoOption option script], none)

/-- The machine in which a called option runs. It shares the world and the session. -/
def enterCall (o : ScriptOption) (m : Machine) : Machine where
  world := m.world
  session := { m.session with depth := m.session.depth + 1 }
  state := .start m.state.scriptDir o.name

/-- The machine after a call. A flag that was down before stays down, and the transcript of the
call follows that of the caller. -/
def leaveCall (before after : Machine) : Machine where
  world := after.world
  session :=
    { after.session with
      depth := after.session.depth - 1
      success := before.session.success && after.session.success }
  state := { before.state with log := before.state.log ++ after.state.log }

/-- Runs an option of the boot script next to the running script, `call` being what runs its
commands. -/
def exec (call : Block → Machine → Machine) (option : String) (m : Machine) : Machine :=
  match e.calledOption option m with
  | (notices, none) => m.noteAll notices
  | (notices, some o) =>
      let m := m.noteAll notices
      leaveCall m (call o.commands (enterCall o m))

/-- Runs a command whose placeholders are resolved. -/
def perform (call : Block → Machine → Machine) (name : String) (args : List String)
    (m : Machine) : Machine :=
  let op := Op.ofName name
  if op = .unknown then m.note (.unknownCommand name)
  else if args.length < op.minArgs then
    m.note (.failed (.of (.usage name op.argumentNames)))
  else
    match op, args with
    | .exec, option :: _ => e.exec call (Text.unquote option) m
    | .bind source, arg :: _ => bindSource source arg m
    | .refresh, _ => { m with session := { m.session with refresh := true } }
    | .logging, _ => m.mapState fun s => { s with logging := !s.logging }
    | op, args => e.runOnWorld op name args m

def logLine (command : Command) : String :=
  "Executing command: " ++ String.join (command.map (· ++ " ")) ++ "\n"

/-- Writes a line at the end of the log file, whose directories are made if needed. -/
def appendLogLine (path : HostPath) (line : String) : FileAction Unit := do
  FileAction.ensureParent path
  FileAction.appendFile path line.toUTF8

def appendLog (command : Command) (m : Machine) : Machine :=
  let path := e.config.hostPath e.config.logFile
  match appendLogLine path (logLine command) m.world.files with
  | .ok _ fs => { m with world := { m.world with files := fs } }
  | .error err fs =>
      { m with world := { m.world with files := fs } }.note (.logFileFailed path err)

/-- Writes a command to the log file if the log is on. -/
def logCommand (command : Command) (m : Machine) : Machine :=
  if m.state.logging then e.appendLog command m else m

/-- The machine once the placeholders of a command are resolved and it is in the transcript. -/
def prepare (r : Placeholder.CommandResolution) (m : Machine) : Machine :=
  e.transcribe ("> " ++ " ".intercalate r.tokens) ((m.followTrail r.trail).require r.complete)

def execute (call : Block → Machine → Machine) (command : Command) (m : Machine) : Machine :=
  let r := (e.context m).resolveCommand m.state.bindings command
  match r.tokens with
  | [] => m
  | name :: args =>
      e.logCommand r.tokens (e.perform call name args (e.prepare r m))

end PackageScript.Engine
