import PackageScript.Command.Setting
import PackageScript.Files.Expand
import PackageScript.Files.Mirror
import PackageScript.Files.Move
import PackageScript.Guard
import PackageScript.Path.ScriptPath

set_option autoImplicit false

/-! # Commands on files

Making, copying, deleting, moving and mirroring. A source with `*` stands for every path that it
matches, and each of them lands inside the destination under its own name. Deleting and moving
ask the guard first.
-/

namespace PackageScript.Setting

variable (s : Setting)

/-- Does something for each of the given paths, one after the other. The first failure ends
it. -/
def forEach (act : HostPath → FileAction Unit) : List HostPath → FileAction Unit
  | [] => pure ()
  | p :: rest => do
      act p
      forEach act rest

/-- The paths that a path pattern stands for. Malformed parts of it are told. -/
def expanded (pattern : HostPath) : Action (List HostPath) := do
  let (paths, notices) ← Action.look fun fs => fs.expand pattern
  Action.noteAll notices
  pure paths

def make (dir : String) : Action Unit := Action.files (FileAction.createDirAll (s.locate dir))

/-- Copies a file or a directory to a place where a plain path names it. -/
def copyPlain (src dst : HostPath) : FileAction Unit := do
  if ← FileAction.look fun fs => fs.isDir src then FileAction.copyTree src dst
  else
    let target ← FileAction.look fun fs => fs.landing src dst
    let _ ← FileAction.copyFile src target

def copy (src dst : String) : Action Unit := do
  let source := scriptPath src
  let target := s.locate dst
  let from_ := s.config.hostPath source
  if isPattern source then
    let found ← expanded from_
    Action.files (forEach (fun p => FileAction.copyEntry p (target.into p)) found)
  else if ← Action.look fun fs => fs.exists? from_ then Action.files (copyPlain from_ target)
  else Action.note (.copyMissing source)

def delete (pattern : String) : Action Unit := do
  let path := scriptPath pattern
  if Guard.isDangerous path then Action.fail (.of (.refused path))
  else
    let found ← expanded (s.config.hostPath path)
    Action.files (forEach FileAction.deleteTree found)

def move (src dst : String) : Action Unit := do
  let source := scriptPath src
  let target := s.locate dst
  let from_ := s.config.hostPath source
  if Guard.isDangerous source then Action.fail (.of (.refused source))
  else if isPattern source then
    let found ← expanded from_
    Action.files (forEach (fun p => FileAction.moveEntry p (target.into p)) found)
  else if ← Action.look fun fs => fs.exists? from_ then
    Action.files (FileAction.moveEntry from_ target)
  else Action.fail (.doesNotExist source)

/-- The target of a mirror command, as a script path. -/
def mirrorTarget : List String → String
  | target :: _ => scriptPath target
  | [] => s.config.mirrorTarget

def mirrorCopy (src : String) (rest : List String) : Action Unit := do
  let source := scriptPath src
  let target := s.mirrorTarget rest
  let (_, notices) ← Action.look fun fs => fs.mirrorEntries (s.config.hostPath source)
  Action.noteAll notices
  let copied ←
    Action.files (FileAction.mirrorCopy (s.config.hostPath source) (s.config.hostPath target))
  Action.note (.mirrorCopied source target copied)

/-- Whether the counterpart of a path below a target is protected. -/
def refusesMirror (target relative : String) : Bool :=
  Guard.isDangerous (ScriptPath.join target relative)

/-- Removes the counterparts of a tree, and tells which of them are protected. -/
def mirrorDeletion (source target : String) : Action Nat := fun w =>
  let d := w.files.mirrorDelete (refusesMirror target) (s.config.hostPath source)
    (s.config.hostPath target)
  let refused := d.asked.filter (refusesMirror target)
  let notices := refused.map fun p => Notice.mirrorRefused (ScriptPath.join target p)
  let w := { w with files := d.files }.noteAll notices
  match d.outcome with
  | .ok n => .ok n w
  | .error e => .error (.ofFileError e) w

def mirrorDelete (src : String) (rest : List String) : Action Unit := do
  let source := scriptPath src
  let target := s.mirrorTarget rest
  let (_, notices) ← Action.look fun fs => fs.mirrorEntries (s.config.hostPath source)
  Action.noteAll notices
  let deleted ← s.mirrorDeletion source target
  Action.note (.mirrorDeleted source target deleted)

end PackageScript.Setting
