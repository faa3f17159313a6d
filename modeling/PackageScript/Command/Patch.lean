import PackageScript.Command.HexValue
import PackageScript.Command.Setting

set_option autoImplicit false

/-! # Commands on ini files and binary files

Both kinds of files are changed by collaborators. Only the values of patches are prepared here.
-/

namespace PackageScript.Setting

variable (s : Setting)

/-! ## Ini files -/

def addIniSection (file name : String) : Action Unit :=
  s.require (.iniAddSection (s.locate file) (Text.unquote name))
    (.failedFor "add-ini-section" (scriptPath file))

def renameIniSection (file name newName : String) : Action Unit :=
  s.require (.iniRenameSection (s.locate file) (Text.unquote name) (Text.unquote newName))
    (.failedFor "rename-ini-section" (scriptPath file))

def removeIniSection (file name : String) : Action Unit :=
  s.require (.iniRemoveSection (s.locate file) (Text.unquote name))
    (.failedFor "remove-ini-section" (scriptPath file))

/-- Sets the value of a key. The words of the value are put together with blanks. -/
def setIniValue (file name key : String) (value : List String) : Action Unit :=
  s.require
    (.iniSet (s.locate file) (Text.unquote name) (Text.unquote key) (" ".intercalate value))
    (.failedFor "set-ini-val" (scriptPath file))

/-- Renames a key. The words of the new name are put together with blanks. -/
def setIniKey (file name key : String) (newKey : List String) : Action Unit :=
  s.require
    (.iniRenameKey (s.locate file) (Text.unquote name) (Text.unquote key)
      (" ".intercalate newKey))
    (.failedFor "set-ini-key" (scriptPath file))

/-- Sets the footer of the running option in the file next to the script. -/
def setFooter (value : String) : Action Unit :=
  let file := s.scriptDir ++ s.config.packageConfigName
  s.require (.iniSet (s.config.hostPath file) s.optionName "footer" (Text.unquote value))
    (.failedFor "set-footer" file)

/-! ## Binary files -/

/-- The value of a computation that may fail. -/
def ofExcept {α : Type} : Except ScriptError α → Action α
  | .ok a => pure a
  | .error e => throw e

def hexByOffset (file offset data : String) : Action Unit :=
  s.require (.hexPatch (s.locate file) (Text.unquote offset) (Text.unquote data))
    (.failedFor "hex-by-offset" (scriptPath file))

def hexByCustomOffset (form : HexForm) (file pattern offset value : String) : Action Unit := do
  let data ← ofExcept (form.encode value)
  s.require
    (.hexPatchAfter (s.locate file) (Text.unquote pattern) (Text.unquote offset) data)
    (.failedFor "hex-by-custom-offset" (scriptPath file))

/-- The occurrence that a replacement is meant for. Zero stands for all of them. -/
def occurrence : List String → Except ScriptError Nat
  | [] => .ok 0
  | arg :: _ =>
      match Text.wordOf? (Text.trim (Text.unquote arg)) with
      | some n => .ok n
      | none => .error (.badOccurrence arg)

def hexReplace (form : HexForm) (file find replace : String) (rest : List String) :
    Action Unit := do
  let find ← ofExcept (form.encode find)
  let replace ← ofExcept (form.encode replace)
  let (find, replace) := form.pad find replace
  let n ← ofExcept (occurrence rest)
  s.require (.hexReplace (s.locate file) find replace n)
    (.failedFor "hex find/replace" (scriptPath file))

end PackageScript.Setting
