import PackageScript.Files.Error
import PackageScript.Glob
import PackageScript.Host.Request
import PackageScript.Placeholder.Bindings
import PackageScript.ScriptError

set_option autoImplicit false

/-! # Notices

What the interpreter tells about a run besides its results: one constructor for each thing that
can be told, with a level and a wording. Notices never change what a run does.
-/

namespace PackageScript

/-- How much a notice matters. -/
inductive Level where
  | trace
  | debug
  | info
  | warn
deriving DecidableEq

def Level.name : Level → String
  | .trace => "TRACE"
  | .debug => "DEBUG"
  | .info => "INFO"
  | .warn => "WARN"

/-- Something that the interpreter tells. -/
inductive Notice where
  /-- A line above the first header of a script belongs to no option. -/
  | droppedLine (line : String)
  /-- A missing script is made. -/
  | creatingScript (path : HostPath)
  /-- An option of a script is about to run. -/
  | running (option script : String)
  /-- A retry chain starts. -/
  | tryStarted (number : Nat)
  /-- A retry chain starts after a chain that succeeded. -/
  | chainNotNeeded (number : Nat)
  /-- A command stands in a section for another platform. -/
  | otherPlatform (name : String)
  /-- A name stands for no command. -/
  | unknownCommand (name : String)
  /-- A command failed. -/
  | failed (error : ScriptError)
  /-- A call of the boot script is nested too deep. -/
  | execTooDeep (option : String) (limit : Nat)
  /-- There is no boot script. -/
  | execNoScript (option script : String)
  /-- The boot script cannot be read. -/
  | execUnreadable (option : String) (error : ScriptError)
  /-- The boot script has no option of the given name. -/
  | execNoOption (option script : String)
  /-- The command log cannot be written. -/
  | logFileFailed (path : HostPath) (error : FileError)
  /-- A source is bound already. -/
  | alreadyBound (source : Source)
  /-- A part of a path pattern is malformed. -/
  | invalidPattern (segment : String) (fault : GlobFault)
  /-- The source of a copy does not exist. -/
  | copyMissing (path : String)
  /-- A part of a mirrored tree cannot be listed. -/
  | walkFailed (path : HostPath) (error : FileError)
  /-- A tree was copied onto another root. -/
  | mirrorCopied (source target : String) (files : Nat)
  /-- The counterparts of a tree were removed. -/
  | mirrorDeleted (source target : String) (files : Nat)
  /-- The guard refused the counterpart of a path. -/
  | mirrorRefused (path : String)
  /-- A download failed. -/
  | downloadFailed (url path : String)
  /-- An archive could not be extracted. -/
  | unzipFailed (archive path : String)
  /-- The boot loader lists no such entry. -/
  | noBootConfig (kind : ConfigKind) (wanted : String)
  /-- A payload does not exist. -/
  | unknownTarget (payload : String)
  /-- The boot entry of a payload could not be written. -/
  | bootEntryNotWritten (path : HostPath)
  /-- A placeholder has no end. -/
  | unterminated (opening text : String)
  /-- A placeholder could not be looked up. -/
  | unresolved (placeholder : String)
  /-- A placeholder reads from a source that is not bound. -/
  | unbound (opening : String)
  /-- A JSON file cannot be read. -/
  | jsonUnreadable (path : HostPath) (error : FileError)
  /-- A text is no JSON. -/
  | jsonMalformed
  /-- A host that has no collaborators was asked something. -/
  | declined (request : Request)
deriving DecidableEq

namespace Notice

def level : Notice → Level
  | .droppedLine _ | .otherPlatform _ | .alreadyBound _ => .trace
  | .failed e =>
      match e.cause with
      | .usage _ _ => .trace
      | .refused _ => .info
      | _ => .debug
  | .tryStarted _ | .mirrorRefused _ | .downloadFailed _ _ | .unzipFailed _ _ => .info
  | .noBootConfig _ _ | .unknownTarget _ | .bootEntryNotWritten _ => .info
  | .execTooDeep _ _ => .warn
  | .declined .reboot | .declined .shutdown => .warn
  | .declined _ => .info
  | _ => .debug

/-- What a host without collaborators says of a request. -/
def declinedMessage : Request → String
  | .iniGet path s key => "ini get " ++ path.text ++ " [" ++ s ++ "] " ++ key
  | .iniSet path s key value =>
      "ini set " ++ path.text ++ " [" ++ s ++ "] " ++ key ++ "=" ++ value
  | .iniRenameKey path s key newKey =>
      "ini rename key " ++ path.text ++ " [" ++ s ++ "] " ++ key ++ " -> " ++ newKey
  | .iniAddSection path s => "ini add [" ++ s ++ "] to " ++ path.text
  | .iniRenameSection path s new =>
      "ini rename [" ++ s ++ "] -> [" ++ new ++ "] in " ++ path.text
  | .iniRemoveSection path s => "ini remove [" ++ s ++ "] from " ++ path.text
  | .hexRead path spec => "hex read " ++ path.text ++ " " ++ Text.escapedList spec
  | .hexPatch path offset data => "hex patch " ++ path.text ++ " @" ++ offset ++ " " ++ data
  | .hexPatchAfter path pattern offset data =>
      "hex patch " ++ path.text ++ " " ++ pattern ++ "+" ++ offset ++ " " ++ data
  | .hexReplace path find replace occurrence =>
      "hex swap " ++ path.text ++ " " ++ find ++ " -> " ++ replace
        ++ " (#" ++ Text.numeralOf occurrence ++ ")"
  | .download url path => "download " ++ url ++ " -> " ++ path.text
  | .unzip archive target => "unzip " ++ archive.text ++ " -> " ++ target.text
  | .listConfigs kind => "list " ++ kind.title ++ " configs"
  | .rebootTo kind config => "reboot to " ++ kind.title ++ " config " ++ config.name
  | .rebootToMenu => "reboot to boot menu"
  | .rebootToBootloader => "reboot to boot loader"
  | .rebootToUms => "reboot to UMS"
  | .rebootToPayload payload => "reboot to payload " ++ payload.text
  | .reboot => "device reboot requested"
  | .shutdown => "device shutdown requested"
  | .toggleBacklight => "backlight toggle requested"

def message : Notice → String
  | .droppedLine line => "dropping header line: " ++ line
  | .creatingScript path => "creating script " ++ path.text
  | .running option script => "running [" ++ option ++ "] of " ++ script
  | .tryStarted number => "Try #" ++ Text.numeralOf number
  | .chainNotNeeded number => "retry chain " ++ Text.numeralOf number ++ " not needed"
  | .otherPlatform name => "skipping " ++ name ++ " outside the device's platform section"
  | .unknownCommand name => "unknown command " ++ name
  | .failed e => e.message
  | .execTooDeep option limit =>
      "exec " ++ option ++ ": nesting deeper than " ++ Text.numeralOf limit
  | .execNoScript option script => "exec " ++ option ++ ": no " ++ script
  | .execUnreadable option e => "exec " ++ option ++ ": " ++ e.message
  | .execNoOption option script => "exec: no option [" ++ option ++ "] in " ++ script
  | .logFileFailed path e => "log file " ++ path.text ++ ": " ++ e.message
  | .alreadyBound source => source.title ++ " already bound"
  | .invalidPattern segment fault =>
      "invalid glob segment " ++ Text.escaped segment ++ ": error parsing glob '" ++ segment
        ++ "': " ++ fault.message
  | .copyMissing path => "copy: " ++ path ++ " does not exist"
  | .walkFailed path e =>
      "mirror walk: IO error for operation on " ++ path.text ++ ": " ++ e.message
  | .mirrorCopied source target n =>
      "mirror_copy " ++ source ++ " -> " ++ target ++ ": " ++ Text.numeralOf n ++ " files"
  | .mirrorDeleted source target n =>
      "mirror_delete " ++ source ++ " -> " ++ target ++ ": " ++ Text.numeralOf n ++ " files"
  | .mirrorRefused path => "mirror_delete: refusing " ++ path
  | .downloadFailed url path => "download " ++ url ++ " -> " ++ path ++ " failed"
  | .unzipFailed archive path => "unzip " ++ archive ++ " -> " ++ path ++ " failed"
  | .noBootConfig kind wanted =>
      "reboot: no " ++ kind.title ++ " config " ++ Text.escaped wanted
  | .unknownTarget payload => "reboot: unknown target " ++ payload
  | .bootEntryNotWritten path => "reboot: could not write " ++ path.text
  | .unterminated opening text =>
      "unterminated placeholder " ++ Text.escaped opening ++ " in " ++ Text.escaped text
  | .unresolved placeholder => "unresolved placeholder " ++ Text.escaped placeholder
  | .unbound opening => "placeholder " ++ Text.escaped opening ++ " used with nothing bound"
  | .jsonUnreadable path e => "json file " ++ path.text ++ ": " ++ e.message
  | .jsonMalformed => "json parse"
  | .declined request => "detached: " ++ declinedMessage request

end Notice

end PackageScript
