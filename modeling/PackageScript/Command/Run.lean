import PackageScript.Command.Device
import PackageScript.Command.Files
import PackageScript.Command.Op
import PackageScript.Command.Patch

set_option autoImplicit false

/-! # Running a command on the world

Every operation that acts on the world is run here. Binding a source, toggling the log, asking
for a refresh and calling the boot script change the state of the run instead, and the
interpreter does them itself.
-/

namespace PackageScript.Setting

/-- Runs an operation with its arguments, and tells whether the retry chain stays healthy. Only
downloads and extractions can make it fail. Too few arguments do nothing. -/
def run (s : Setting) : Op → List String → Action Bool
  | .make, dir :: _ => do s.make dir; pure true
  | .copy, src :: dst :: _ => do s.copy src dst; pure true
  | .delete, pattern :: _ => do s.delete pattern; pure true
  | .move, src :: dst :: _ => do s.move src dst; pure true
  | .mirrorCopy, src :: rest => do s.mirrorCopy src rest; pure true
  | .mirrorDelete, src :: rest => do s.mirrorDelete src rest; pure true
  | .addIniSection, file :: name :: _ => do s.addIniSection file name; pure true
  | .renameIniSection, file :: name :: newName :: _ => do
      s.renameIniSection file name newName
      pure true
  | .removeIniSection, file :: name :: _ => do s.removeIniSection file name; pure true
  | .setIniValue, file :: name :: key :: value => do
      s.setIniValue file name key value
      pure true
  | .setIniKey, file :: name :: key :: newKey => do s.setIniKey file name key newKey; pure true
  | .setFooter, value :: _ => do s.setFooter value; pure true
  | .hexByOffset, file :: offset :: data :: _ => do s.hexByOffset file offset data; pure true
  | .hexByCustomOffset, file :: pattern :: offset :: value :: _ => do
      s.hexByCustomOffset .digits file pattern offset value
      pure true
  | .hexByCustomDecimalOffset, file :: pattern :: offset :: value :: _ => do
      s.hexByCustomOffset .decimal file pattern offset value
      pure true
  | .hexByCustomReversedOffset, file :: pattern :: offset :: value :: _ => do
      s.hexByCustomOffset .reversed file pattern offset value
      pure true
  | .hexBySwap, file :: find :: replace :: rest => do
      s.hexReplace .digits file find replace rest
      pure true
  | .hexByString, file :: find :: replace :: rest => do
      s.hexReplace .text file find replace rest
      pure true
  | .hexByDecimal, file :: find :: replace :: rest => do
      s.hexReplace .decimal file find replace rest
      pure true
  | .hexByReversedDecimal, file :: find :: replace :: rest => do
      s.hexReplace .reversed file find replace rest
      pure true
  | .download, url :: dst :: _ => s.download url dst
  | .unzip, archive :: dst :: _ => s.unzip archive dst
  | .reboot, args => do s.reboot args; pure true
  | .shutdown, _ => do s.shutdown; pure true
  | .backlight, _ => do s.backlight; pure true
  | .clear, what :: _ => do s.clear what; pure true
  | _, _ => pure true

end PackageScript.Setting
