import PackageScript.Files.Basic
import PackageScript.Host.Basic

set_option autoImplicit false

/-! # A host that answers from tables

A scripted host stands in for the device. Its lookups answer from tables, its downloads write
texts from a table, and every request succeeds unless its words contain one of the given texts.
-/

namespace PackageScript

def ConfigKind.word : ConfigKind → String
  | .boot => "boot"
  | .ini => "ini"

/-- The words of a request: what is asked, then the arguments. -/
def Request.words : Request → List String
  | .iniGet path s key => ["ini.get", path.text, s, key]
  | .iniSet path s key value => ["ini.set", path.text, s, key, value]
  | .iniRenameKey path s key newKey => ["ini.set_key_name", path.text, s, key, newKey]
  | .iniAddSection path s => ["ini.add_section", path.text, s]
  | .iniRenameSection path s new => ["ini.rename_section", path.text, s, new]
  | .iniRemoveSection path s => ["ini.remove_section", path.text, s]
  | .hexRead path spec => "hex.read_at" :: path.text :: spec
  | .hexPatch path offset data => ["hex.patch_at_offset", path.text, offset, data]
  | .hexPatchAfter path pattern offset data =>
      ["hex.patch_at_custom_offset", path.text, pattern, offset, data]
  | .hexReplace path find replace occurrence =>
      ["hex.find_replace", path.text, find, replace, Text.numeralOf occurrence]
  | .download url path => ["net.download", url, path.text]
  | .unzip archive target => ["net.unzip", archive.text, target.text]
  | .listConfigs kind => ["boot.list_configs", kind.word]
  | .rebootTo kind config =>
      ["boot.reboot_to", kind.word, Text.numeralOf config.index, config.name]
  | .rebootToMenu => ["boot.reboot_to_menu"]
  | .rebootToBootloader => ["boot.reboot_to_bootloader"]
  | .rebootToUms => ["boot.reboot_to_ums"]
  | .rebootToPayload payload => ["boot.reboot_to_payload", payload.text]
  | .reboot => ["device.reboot"]
  | .shutdown => ["device.shutdown"]
  | .toggleBacklight => ["device.toggle_backlight"]

/-- The tables of a scripted host. -/
structure HostTables where
  rebootsToConfig : Bool
  /-- Values of ini files: path, section, key and value. -/
  iniRows : List (String × String × String × String)
  /-- Values of binary files: path, address and value. -/
  hexRows : List (String × List String × String)
  /-- The entries of the main boot file. -/
  bootNames : List String
  /-- The entries of the directory of ini files. -/
  iniNames : List String
  /-- What downloads write: address and text. -/
  bodies : List (String × String)
  /-- Requests whose words, put together with blanks, contain one of these texts fail. -/
  failing : List String

namespace HostTables

variable (t : HostTables)

/-- Whether a request succeeds as far as its words go. -/
def admits (r : Request) : Bool :=
  !t.failing.any fun text => Text.contains (" ".intercalate r.words) text

def iniValue (path : HostPath) (section_ key : String) : Option String :=
  if t.admits (.iniGet path section_ key) then
    t.iniRows.findSome? fun (p, s, k, value) =>
      if p = path.text ∧ s = section_ ∧ k = key then some value else none
  else none

def hexValue (path : HostPath) (spec : List String) : Option String :=
  if t.admits (.hexRead path spec) then
    t.hexRows.findSome? fun (p, s, value) =>
      if p = path.text ∧ s = spec then some value else none
  else none

def configs (kind : ConfigKind) : List BootConfig :=
  let names :=
    match kind with
    | .boot => t.bootNames
    | .ini => t.iniNames
  names.zipIdx.map fun (name, index) => ⟨name, index⟩

/-- What a request that is admitted does. -/
def perform (fs : FileSystem) (r : Request) : Bool × FileSystem :=
  if t.admits r then
    match r with
    | .download url path =>
        match t.bodies.lookup url with
        | none => (true, fs)
        | some body =>
            match FileAction.writeFile path body.toUTF8 fs with
            | .ok _ fs => (true, fs)
            | .error _ fs => (false, fs)
    | .unzip archive _ => (fs.exists? archive, fs)
    | _ => (true, fs)
  else (false, fs)

/-- The host of a platform that answers from tables. -/
def host (platform : Platform) : Host where
  platform := platform
  rebootsToConfig := t.rebootsToConfig
  readIni _ _ := t.iniValue
  readHex _ _ := t.hexValue
  json := Json.query
  bootList _ := t.configs
  perform _ := t.perform
  remarks _ := []

end HostTables

end PackageScript
