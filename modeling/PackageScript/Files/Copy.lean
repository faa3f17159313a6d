import PackageScript.Files.Directories

set_option autoImplicit false

/-! # Copying

A file is copied over whatever file or link stands at its new place. A directory is copied so
that its contents appear below the new place, next to what is there already. A link is copied
as the file that it leads to.
-/

namespace PackageScript

namespace FileAction

/-- The size that is told for a directory. -/
def directorySize : Nat := 4096

def sizeOf (p : HostPath) (fs : FileSystem) : Except FileError Nat :=
  match fs.stat p with
  | .error e => .error e
  | .ok (_, .file bytes) => .ok bytes.size
  | .ok (_, _) => .ok directorySize

/-- Removes a file or a link that stands at a path, if one does. -/
def clearFile (p : HostPath) : FileAction Unit := fun fs =>
  if fs.isNonDir p then removeFile p fs else .ok () fs

/-- Copies one file and tells how many bytes it has. The source is opened first, so the bytes
are those that it had before, also when both paths lead to one file. A directory can be opened
but not read, which shows only once the new file is there. -/
def copyFile (src dst : HostPath) : FileAction Nat := do
  if src.same dst then ask (sizeOf src)
  else
    let (_, source) ← ask fun fs => fs.stat src
    ensureParent dst
    clearFile dst
    let place ← createFile dst
    match source with
    | .file bytes =>
        writeAt place bytes
        pure bytes.size
    | _ => throw .isDirectory

/-- Copies the entries of a directory, `copyDir` being applied to directories. A link counts
as a file. -/
def copyEntries (copyDir : HostPath → HostPath → FileAction Unit) (src dst : HostPath) :
    List (String × Entry) → FileAction Unit
  | [] => pure ()
  | (name, .dir) :: rest => do
      copyDir (src.child name) (dst.child name)
      copyEntries copyDir src dst rest
  | (name, _) :: rest => do
      let _ ← copyFile (src.child name) (dst.child name)
      copyEntries copyDir src dst rest

/-- Copies a directory tree at most `depth` levels deep. Paths cannot be longer than
`pathLimit`, so with that depth the limit is never what ends the copy. -/
def copyTreeTo : Nat → HostPath → HostPath → FileAction Unit
  | 0 => fun _ _ => throw .nameTooLong
  | depth + 1 => fun src dst => do
      if src.same dst then pure ()
      else if src.isStartOf dst then throw (.intoItself src dst)
      else
        createDirAll dst
        let entries ← ask fun fs => fs.readDir src
        copyEntries (copyTreeTo depth) src dst entries

/-- Copies a directory so that its contents appear below `dst`. -/
def copyTree (src dst : HostPath) : FileAction Unit := copyTreeTo pathLimit src dst

/-- Copies a file or a directory tree to exactly `dst`. -/
def copyEntry (src dst : HostPath) : FileAction Unit := do
  let (_, source) ← ask fun fs => fs.stat src
  match source with
  | .dir _ => copyTree src dst
  | _ =>
      let _ ← copyFile src dst

end FileAction

end PackageScript
