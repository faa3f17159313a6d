import PackageScript.Files.Copy
import PackageScript.Notice

set_option autoImplicit false

/-! # Mirrored trees

The inventory of a tree lists everything in it, the tree itself first and parents before their
children. Copying makes the counterpart of every entry under another root. Deleting goes through
the inventory backwards and removes the counterparts: files at once, directories only when they
are empty by then.
-/

namespace PackageScript

/-- Something in a tree: the names that lead to it, none for the tree itself. -/
structure MirrorEntry where
  names : List String
  isDir : Bool
deriving DecidableEq

namespace MirrorEntry

/-- The path of an entry from the root of its tree, empty for the root. -/
def path (e : MirrorEntry) : HostPath := ⟨"/".intercalate e.names⟩

/-- An entry as seen from a directory above the tree. -/
def under (name : String) (e : MirrorEntry) : MirrorEntry := ⟨name :: e.names, e.isDir⟩

/-- Whether the directory that some names lead to from a root can be listed. A path that is too
long cannot be opened. -/
def canList (root : HostPath) (names : List String) : Bool :=
  names.isEmpty || (root.join ⟨"/".intercalate names⟩).text.utf8ByteSize < pathLimit

/-- What a walk from a root meets of a tree, and what it tells: of a directory that cannot be
listed it meets no more than the directory. -/
def walked (root : HostPath) (entries : List MirrorEntry) : List MirrorEntry × List Notice :=
  let met := entries.filter fun e => canList root e.names.dropLast
  let shut := met.filter fun e => e.isDir && !canList root e.names
  (met, shut.map fun e => .walkFailed (root.join e.path) .nameTooLong)

end MirrorEntry

mutual

/-- Everything in a tree, the tree itself first, names in increasing order. -/
def Node.inventory : Node → List MirrorEntry
  | .dir es => ⟨[], true⟩ :: inventoryOf es
  | .file _ => [⟨[], false⟩]
  | .link _ => [⟨[], false⟩]

/-- Everything in and below the given entries of a directory. -/
def Node.inventoryOf : List (String × Node) → List MirrorEntry
  | [] => []
  | (name, node) :: rest => (node.inventory.map (·.under name)) ++ inventoryOf rest

end

namespace FileSystem

/-- The inventory of the tree at a path. A link at the path itself counts as a file, but what
it leads to is listed. -/
def mirrorEntries (fs : FileSystem) (root : HostPath) : List MirrorEntry × List Notice :=
  match fs.lstat root with
  | .error e => ([], [.walkFailed root e])
  | .ok (_, .link _) =>
      match fs.stat root with
      | .error e => ([], [.walkFailed root e])
      | .ok (_, node) => MirrorEntry.walked root (⟨[], false⟩ :: node.inventory.drop 1)
  | .ok (_, node) => MirrorEntry.walked root node.inventory

end FileSystem

namespace FileAction

/-- Makes the counterparts of entries under another root, and counts the files. Entries that
are their own counterpart are skipped. -/
def mirrorCopyEntries (source target : HostPath) : List MirrorEntry → Nat → FileAction Nat
  | [], copied => pure copied
  | e :: rest, copied =>
      let src := source.join e.path
      let dst := target.join e.path
      if src.same dst then mirrorCopyEntries source target rest copied
      else if e.isDir then do
        createDirAll dst
        mirrorCopyEntries source target rest copied
      else do
        let _ ← copyFile src dst
        mirrorCopyEntries source target rest (copied + 1)

/-- Makes the counterpart of a tree under another root, and counts the files. -/
def mirrorCopy (source target : HostPath) : FileAction Nat := do
  let (entries, _) ← look fun fs => fs.mirrorEntries source
  mirrorCopyEntries source target entries 0

/-- Removes one counterpart, and counts it if it is a file. A directory is removed only when it
is empty. -/
def removeCounterpart (isDir : Bool) (p : HostPath) : FileAction Nat := do
  if isDir then
    if ← look fun fs => fs.isDir p then
      match ← ask fun fs => fs.readDir p with
      | [] =>
          removeDir p
          pure 0
      | _ => pure 0
    else pure 0
  else if ← look fun fs => fs.isNonDir p then
    removeFile p
    pure 1
  else pure 0

end FileAction

/-- What came of removing counterparts: the paths for which leave was asked, in order, the number
of files removed unless something failed, and the file system afterwards. -/
structure MirrorDeletion where
  asked : List String
  outcome : Except FileError Nat
  files : FileSystem

namespace MirrorDeletion

/-- Puts a path for which leave was asked in front. -/
def afterAsking (path : String) (d : MirrorDeletion) : MirrorDeletion :=
  { d with asked := path :: d.asked }

/-- Removes the counterparts of entries in the given order. The root itself and entries that are
their own counterpart are skipped, and leave is asked for every other one. -/
def ofEntries (refuse : String → Bool) (source target : HostPath) :
    List MirrorEntry → Nat → FileSystem → MirrorDeletion
  | [], deleted, fs => ⟨[], .ok deleted, fs⟩
  | e :: rest, deleted, fs =>
      let dst := target.join e.path
      if e.names.isEmpty || (source.join e.path).same dst then
        ofEntries refuse source target rest deleted fs
      else if refuse e.path.text then
        (ofEntries refuse source target rest deleted fs).afterAsking e.path.text
      else
        match FileAction.removeCounterpart e.isDir dst fs with
        | .error err fs => ⟨[e.path.text], .error err, fs⟩
        | .ok n fs =>
            (ofEntries refuse source target rest (deleted + n) fs).afterAsking e.path.text

end MirrorDeletion

/-- Removes the counterparts of a tree under another root, the deepest and last ones first. -/
def FileSystem.mirrorDelete (fs : FileSystem) (refuse : String → Bool)
    (source target : HostPath) : MirrorDeletion :=
  .ofEntries refuse source target (fs.mirrorEntries source).1.reverse 0 fs

end PackageScript
