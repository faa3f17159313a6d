import PackageScript.Cli.Arguments
import PackageScript.Command.Op
import PackageScript.Host.Detached
import PackageScript.Runner

set_option autoImplicit false

/-! # The command line program

The program lists the options of a script or runs one of them on a host without collaborators,
with a directory in the place of the card. It ends with zero if everything went well, with two
if the arguments are not understood, and with one otherwise.
-/

namespace PackageScript.Cli

/-- A line that the program prints. -/
inductive Line where
  | text (t : String)
  /-- The summary of a run, which tells how long the run took. -/
  | summary (r : Report)
deriving DecidableEq

/-- The text of a line, for a run that took the given number of milliseconds. -/
def Line.render (milliseconds : String) : Line → String
  | .text t => t
  | .summary r => r.summary milliseconds

def linesOf (text : String) : List String :=
  let lines := Text.pieces (· == '\n') text.toList
  let lines := if lines.getLast? = some [] then lines.dropLast else lines
  lines.map fun l => String.ofList (if l.getLast? = some '\r' then l.dropLast else l)

/-- What the program prints and how it ends. -/
structure Output where
  exitCode : Nat
  lines : List Line
  /-- What is printed on an error, empty if there is none. -/
  error : String
deriving DecidableEq

namespace Output

/-- The program printed something and all is well. -/
def printed (lines : List String) : Output := ⟨0, lines.map .text, ""⟩

def failed (exitCode : Nat) (message : String) : Output := ⟨exitCode, [], "error: " ++ message⟩

/-- The first line of what is printed on an error. -/
def errorLine (o : Output) : String := (linesOf o.error).headD ""

end Output

/-! ## Texts -/

def versionLine : String := "packscript 0.1.0"

def helpLines : List String := [
  "Run options of INI-sectioned package scripts",
  "",
  "Usage: packscript [OPTIONS] [SCRIPT] [OPTION]",
  "",
  "Arguments:",
  "  [SCRIPT]  Script to run: a host path under --root, or a volume path such as "
    ++ "sdmc:/switch/.packages/x/package.ini",
  "  [OPTION]  Option (section) to run",
  "",
  "Options:",
  "  -r, --root <ROOT>          Host directory mapped to sdmc:/ [default: .]",
  "  -p, --platform <PLATFORM>  Platform the detached host reports [default: erista]",
  "      --strict-platform      Skip commands in platform sections that do not match --platform",
  "  -l, --list                 List the script's options instead of running one",
  "      --list-commands        List available commands",
  "  -v, --verbose              Verbose output: debug logging and the execution transcript",
  "  -h, --help                 Print help",
  "  -V, --version              Print version"]

/-- A text with blanks behind it, up to a given width. -/
def padded (width : Nat) (text : String) : String :=
  text ++ String.ofList (List.replicate (width - text.length) ' ')

def commandLine (op : Op) : String :=
  "  " ++ padded 28 (", ".intercalate op.namesOf) ++ " " ++ op.summary ++ " " ++ op.argumentNames

def commandLines : List String :=
  ["Built-in commands:", ""] ++ Op.table.map commandLine ++ [
    "",
    "Markers:",
    "  try:                         Start a retry chain",
    "  erista: / mariko:            Start a platform section"]

/-! ## Running -/

/-- What stands between two texts in a message. -/
def because (what : String) (reason : FileError) : String := what ++ ": " ++ reason.message

/-- The script path of a script. One that is given as a host path has to lie below the directory
that stands for the card. -/
def scriptPathOf (fs : FileSystem) (script : String) (root : HostPath) : Except String String :=
  if Text.contains script ":/" then .ok script
  else
    match fs.canonical root, fs.canonical ⟨script⟩ with
    | .error e, _ => .error (because ("root " ++ root.text) e)
    | _, .error e => .error (because ("script " ++ script) e)
    | .ok top, .ok path =>
        match top.below? path with
        | some below => .ok (ScriptPath.join cardMark ("/".intercalate below))
        | none => .error (path.text ++ " is not under " ++ top.text)

def runner (a : Arguments) (root : HostPath) (script : String) : Runner where
  engine :=
    { config :=
        { (Config.standard.setCardRoot root) with strictSections := a.has .strictPlatform }
      host := .detached (a.platform.getD .erista)
      quiet := false }
  script := script
  initialNames := none

def optionLine (o : ScriptOption) : String :=
  "[" ++ o.name ++ "] " ++ Text.numeralOf o.commands.length ++ " command(s)"

def listOptions (r : Runner) (w : World) : Output × World :=
  match r.options w with
  | .ok script w => (.printed (script.map optionLine), w)
  | .error e w => (.failed 1 ("loading " ++ r.script ++ ": " ++ e.message), w)

def runOption (r : Runner) (name : String) (verbose : Bool) (w : World) : Output × World :=
  match r.runOption name w with
  | .error e w => (.failed 1 e.message, w)
  | .ok report w =>
      let transcript := if verbose then (linesOf report.log).map (.text ∘ ("      " ++ ·)) else []
      (⟨if report.success then 0 else 1, transcript ++ [.summary report], ""⟩, w)

/-- Runs the program with arguments that are understood. -/
def runWith (a : Arguments) (w : World) : Output × World :=
  let root : HostPath := ⟨a.root.getD "."⟩
  if a.has .listCommands then (.printed commandLines, w)
  else
    match a.script with
    | none => (.failed 1 "no script given", w)
    | some script =>
        match scriptPathOf w.files script root with
        | .error message => (.failed 1 message, w)
        | .ok script =>
            let r := runner a root script
            match a.option with
            | none => listOptions r w
            | some name =>
                if a.has .list then listOptions r w
                else runOption r name (a.has .verbose) w

def run (args : List String) (w : World) : Output × World :=
  match Arguments.ofList args with
  | .ok a => runWith a w
  | .error .help => (.printed helpLines, w)
  | .error .version => (.printed [versionLine], w)
  | .error stop => (.failed 2 stop.message, w)

end PackageScript.Cli
