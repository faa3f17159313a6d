import PackageScript.Placeholder.Bindings

set_option autoImplicit false

/-! # The built-in commands

Each name that a script may use stands for one operation, and an operation may have several
names. The table gives the names in listing order. A name outside the table stands for no
operation.
-/

namespace PackageScript

/-- The built-in operations. -/
inductive Op where
  | bind (source : Source)
  | make
  | copy
  | delete
  | move
  | mirrorCopy
  | mirrorDelete
  | addIniSection
  | renameIniSection
  | removeIniSection
  | setIniValue
  | setIniKey
  | setFooter
  | hexByOffset
  | hexByCustomOffset
  | hexByCustomDecimalOffset
  | hexByCustomReversedOffset
  | hexBySwap
  | hexByString
  | hexByDecimal
  | hexByReversedDecimal
  | download
  | unzip
  | exec
  | reboot
  | shutdown
  | backlight
  | refresh
  | logging
  | clear
  | unknown
deriving DecidableEq, Inhabited

namespace Op

/-- The names that scripts may use, in listing order. -/
def names : List (String × Op) := [
  ("list", .bind .list), ("list_source", .bind .list),
  ("json", .bind .json), ("json_source", .bind .json),
  ("json_file", .bind .jsonFile), ("json_file_source", .bind .jsonFile),
  ("ini_file", .bind .iniFile), ("hex_file", .bind .hexFile),
  ("make", .make), ("mkdir", .make),
  ("copy", .copy), ("cp", .copy),
  ("delete", .delete), ("del", .delete),
  ("rename", .move), ("move", .move), ("mv", .move),
  ("mirror_copy", .mirrorCopy), ("mirror-copy", .mirrorCopy),
  ("mirror_delete", .mirrorDelete), ("mirror-delete", .mirrorDelete),
  ("add-ini-section", .addIniSection), ("rename-ini-section", .renameIniSection),
  ("remove-ini-section", .removeIniSection),
  ("set-ini-val", .setIniValue), ("set-ini-value", .setIniValue),
  ("set-ini-key", .setIniKey), ("set-footer", .setFooter),
  ("hex-by-offset", .hexByOffset), ("hex-by-custom-offset", .hexByCustomOffset),
  ("hex-by-custom-decimal-offset", .hexByCustomDecimalOffset),
  ("hex-by-custom-offset-decimal", .hexByCustomDecimalOffset),
  ("hex-by-custom-rdecimal-offset", .hexByCustomReversedOffset),
  ("hex-by-custom-offset-rdecimal", .hexByCustomReversedOffset),
  ("hex-by-swap", .hexBySwap), ("hex-by-string", .hexByString),
  ("hex-by-decimal", .hexByDecimal), ("hex-by-rdecimal", .hexByReversedDecimal),
  ("download", .download), ("unzip", .unzip), ("exec", .exec), ("reboot", .reboot),
  ("shutdown", .shutdown), ("backlight", .backlight), ("refresh", .refresh),
  ("logging", .logging), ("clear", .clear)]

def ofName (name : String) : Op := ((names.lookup name).getD .unknown)

def namesOf (op : Op) : List String := (names.filter fun e => e.2 = op).map Prod.fst

def minArgs : Op → Nat
  | .bind _ | .make | .delete | .mirrorCopy | .mirrorDelete => 1
  | .copy | .move | .download | .unzip => 2
  | .addIniSection | .removeIniSection => 2
  | .renameIniSection => 3
  | .setIniValue | .setIniKey => 4
  | .setFooter | .exec | .clear => 1
  | .hexByOffset => 3
  | .hexByCustomOffset | .hexByCustomDecimalOffset | .hexByCustomReversedOffset => 4
  | .hexBySwap | .hexByString | .hexByDecimal | .hexByReversedDecimal => 3
  | .reboot | .shutdown | .backlight | .refresh | .logging | .unknown => 0

def summary : Op → String
  | .bind .list => "Bind the list read by \x7blist(N)\x7d"
  | .bind .json => "Bind the JSON text read by \x7bjson(...)\x7d"
  | .bind .jsonFile => "Bind the JSON file read by \x7bjson_file(...)\x7d"
  | .bind .iniFile => "Bind the ini file read by \x7bini_file(...)\x7d"
  | .bind .hexFile => "Bind the binary file read by \x7bhex_file(...)\x7d"
  | .make => "Create a directory and its parents"
  | .copy => "Copy files or directory trees"
  | .delete => "Delete files or directory trees"
  | .move => "Move or rename files or directories"
  | .mirrorCopy => "Copy a tree onto another root"
  | .mirrorDelete => "Delete a tree's counterpart under another root"
  | .addIniSection => "Add a section to an ini file"
  | .renameIniSection => "Rename an ini section"
  | .removeIniSection => "Remove an ini section"
  | .setIniValue => "Set an ini value"
  | .setIniKey => "Rename an ini key"
  | .setFooter => "Set the footer shown for this option"
  | .hexByOffset => "Patch bytes at an offset"
  | .hexByCustomOffset => "Patch bytes relative to a pattern"
  | .hexByCustomDecimalOffset => "Patch a decimal relative to a pattern"
  | .hexByCustomReversedOffset => "Patch a little-endian decimal relative to a pattern"
  | .hexBySwap => "Replace hex data"
  | .hexByString => "Replace ASCII text"
  | .hexByDecimal => "Replace a decimal value"
  | .hexByReversedDecimal => "Replace a little-endian decimal value"
  | .download => "Download a file"
  | .unzip => "Extract an archive"
  | .exec => "Run an option of the boot script"
  | .reboot => "Reboot, optionally into a boot target"
  | .shutdown => "Power off"
  | .backlight => "Toggle the backlight"
  | .refresh => "Request a UI refresh"
  | .logging => "Toggle command logging"
  | .clear => "Clear the command log"
  | .unknown => "Unknown command"

def argumentNames : Op → String
  | .bind .list => "'a,b,c'"
  | .bind .json => "'json'"
  | .bind _ => "path"
  | .make => "dir"
  | .copy | .move => "src-pattern dst"
  | .delete => "pattern"
  | .mirrorCopy | .mirrorDelete => "source-root [target-root]"
  | .addIniSection | .removeIniSection => "file section"
  | .renameIniSection => "file section new-section"
  | .setIniValue => "file section key value..."
  | .setIniKey => "file section key new-key..."
  | .setFooter => "value"
  | .hexByOffset => "file offset hex"
  | .hexByCustomOffset => "file pattern offset hex"
  | .hexByCustomDecimalOffset | .hexByCustomReversedOffset => "file pattern offset decimal"
  | .hexBySwap | .hexByString | .hexByDecimal | .hexByReversedDecimal =>
      "file find replace [occurrence]"
  | .download => "url dest"
  | .unzip => "archive dest"
  | .exec => "option"
  | .reboot => "[boot|ini index-or-name | UMS | HEKATE | payload]"
  | .clear => "log"
  | .shutdown | .backlight | .refresh | .logging | .unknown => ""

/-- Every operation of the table once, in the order of its first name. -/
def table : List Op :=
  names.foldl (fun seen e => if seen.contains e.2 then seen else seen ++ [e.2]) []

/-- The source that a command of a given name binds. -/
def sourceOf? (name : String) : Option Source :=
  match ofName name with
  | .bind s => some s
  | _ => none

end Op

end PackageScript
