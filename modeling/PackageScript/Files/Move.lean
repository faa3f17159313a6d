import PackageScript.Files.Copy
import PackageScript.Files.Delete

set_option autoImplicit false

/-! # Moving

A directory is copied to exactly its new place and then deleted. A file lands at the new place,
or under its own name inside it when the new path ends in a slash or leads to a directory, and
replaces a file that is already there.
-/

namespace PackageScript

/-- Where a file that goes to `dst` lands. -/
def FileSystem.landing (fs : FileSystem) (src dst : HostPath) : HostPath :=
  if dst.endsWithSlash || fs.isDir dst then dst.into src else dst

namespace FileAction

/-- Removes the file that a path leads to, if it leads to one. -/
def clearTarget (p : HostPath) : FileAction Unit := fun fs =>
  if fs.isFile p then removeFile p fs else .ok () fs

def moveEntry (src dst : HostPath) : FileAction Unit := do
  let (_, source) ← ask fun fs => fs.stat src
  ensureParent dst
  match source with
  | .dir _ =>
      copyTree src dst
      deleteTree src
  | _ =>
      let target ← look fun fs => fs.landing src dst
      clearTarget target
      ensureParent target
      rename src target

end FileAction

end PackageScript
