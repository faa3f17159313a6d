import PackageScript.Command.Setting
import PackageScript.Files.Delete
import PackageScript.Path.ScriptPath

set_option autoImplicit false

/-! # Commands on the device and the network

A failed download or extraction is told and makes the retry chain fail. A reboot first tries the
target that it names, where the boot loader can honour one, and always ends with a reboot of the
device.
-/

namespace PackageScript.Setting

variable (s : Setting)

/-! ## Network -/

def download (url dst : String) : Action Bool := do
  let url := Text.unquote url
  let succeeded ← Action.request s.host (.download url (s.locate dst))
  if succeeded then pure true
  else
    Action.note (.downloadFailed url (scriptPath dst))
    pure false

def unzip (archive dst : String) : Action Bool := do
  let succeeded ← Action.request s.host (.unzip (s.locate archive) (s.locate dst))
  if succeeded then pure true
  else
    Action.note (.unzipFailed (scriptPath archive) (scriptPath dst))
    pure false

/-! ## Rebooting -/

/-- The entry that a text names: by its position if the text has only digits, by its name
otherwise. -/
def wantedConfig (configs : List BootConfig) (wanted : String) : Option BootConfig :=
  if !wanted.isEmpty && wanted.toList.all Char.isDigit then
    (Text.wordOf? wanted).bind fun i => configs[i]?
  else configs.find? fun c => c.name == wanted

/-- Reboots into an entry of a list, if the list has it. -/
def rebootToListed (kind : ConfigKind) (wanted : String) : Action Unit := do
  match wantedConfig (← Action.configs s.host kind) wanted with
  | some config =>
      let _ ← Action.request s.host (.rebootTo kind config)
  | none => Action.note (.noBootConfig kind wanted)

/-- Reboots into a payload, if it exists. On the newer platform an entry for it is written
first, and that entry is launched. -/
def rebootToPayload (payload : String) : Action Unit := do
  let path := s.config.hostPath payload
  let name := ScriptPath.fileName payload
  if !(← Action.look fun fs => fs.exists? path) then Action.note (.unknownTarget payload)
  else if s.host.platform = .erista then
    let _ ← Action.request s.host (.rebootToPayload path)
  else
    let entry := s.config.hostPath (cardMark ++ "bootloader/ini/" ++ name ++ ".ini")
    if !(← Action.request s.host (.iniSet entry name "payload" payload)) then
      Action.note (.bootEntryNotWritten entry)
    s.rebootToListed .ini name

/-- Tries the boot target that the arguments name. -/
def rebootTarget : List String → Action Unit
  | [] => do
      let _ ← Action.request s.host .rebootToBootloader
  | target :: rest =>
      match Text.unquote target with
      | "boot" =>
          match rest with
          | wanted :: _ => s.rebootToListed .boot (Text.unquote wanted)
          | [] => pure ()
      | "ini" =>
          match rest with
          | wanted :: _ => s.rebootToListed .ini (Text.unquote wanted)
          | [] => pure ()
      | "UMS" => do
          let _ ← Action.request s.host .rebootToUms
      | "HEKATE" | "hekate" => do
          let _ ← Action.request s.host .rebootToMenu
      | _ => s.rebootToPayload (scriptPath target)

/-- Reboots, into a boot target if one is named and can be launched. -/
def reboot (args : List String) : Action Unit := do
  if s.host.platform = .erista ∨ s.host.rebootsToConfig = true then s.rebootTarget args
  let _ ← Action.request s.host .reboot

/-! ## Other commands -/

def shutdown : Action Unit := do
  let _ ← Action.request s.host .shutdown

def backlight : Action Unit := do
  let _ ← Action.request s.host .toggleBacklight

/-- Clears the command log, if that is what is named. -/
def clear (what : String) : Action Unit := do
  if Text.unquote what = "log" then
    Action.files (FileAction.deleteTree (s.config.hostPath s.config.logFile))

end PackageScript.Setting
