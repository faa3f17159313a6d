import PackageScript.Path.HostPath
import PackageScript.Text.Numeral

set_option autoImplicit false

/-! # Requests to collaborators

The interpreter edits no ini file, patches no binary, fetches nothing and does not touch the
device. It asks collaborators to, and each thing that it can ask is a request. Paths in
requests are host paths.
-/

namespace PackageScript

/-- Which list of the boot loader an entry comes from. -/
inductive ConfigKind where
  /-- The entries of its main file. -/
  | boot
  /-- The entries of its directory of ini files. -/
  | ini
deriving DecidableEq

/-- The name that messages use for a list. -/
def ConfigKind.title : ConfigKind → String
  | .boot => "Boot"
  | .ini => "Ini"

/-- An entry that the boot loader can launch. -/
structure BootConfig where
  name : String
  index : Nat
deriving DecidableEq

/-- What a collaborator can be asked. -/
inductive Request where
  | iniGet (path : HostPath) (section_ key : String)
  | iniSet (path : HostPath) (section_ key value : String)
  | iniRenameKey (path : HostPath) (section_ key newKey : String)
  | iniAddSection (path : HostPath) (section_ : String)
  | iniRenameSection (path : HostPath) (section_ newSection : String)
  | iniRemoveSection (path : HostPath) (section_ : String)
  | hexRead (path : HostPath) (spec : List String)
  | hexPatch (path : HostPath) (offset data : String)
  | hexPatchAfter (path : HostPath) (pattern offset data : String)
  | hexReplace (path : HostPath) (find replace : String) (occurrence : Nat)
  | download (url : String) (path : HostPath)
  | unzip (archive target : HostPath)
  | listConfigs (kind : ConfigKind)
  | rebootTo (kind : ConfigKind) (config : BootConfig)
  | rebootToMenu
  | rebootToBootloader
  | rebootToUms
  | rebootToPayload (payload : HostPath)
  | reboot
  | shutdown
  | toggleBacklight
deriving DecidableEq

end PackageScript
