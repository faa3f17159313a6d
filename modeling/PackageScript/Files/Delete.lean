import PackageScript.Files.Basic

set_option autoImplicit false

/-! # Deleting trees

A directory is emptied before it is removed. Links are removed, never followed. A path that
names nothing is left alone.
-/

namespace PackageScript

namespace FileAction

def deleteEntries (delete : HostPath → FileAction Unit) (dir : HostPath) :
    List (String × Entry) → FileAction Unit
  | [] => pure ()
  | (name, _) :: rest => do
      delete (dir.child name)
      deleteEntries delete dir rest

/-- Deletes a tree at most `depth` levels deep. Paths cannot be longer than `pathLimit`, so
with that depth the limit is never what ends the deletion. -/
def deleteTreeTo : Nat → HostPath → FileAction Unit
  | 0 => fun _ => throw .nameTooLong
  | depth + 1 => fun p fs =>
      match fs.lstat p with
      | .error .notFound => .ok () fs
      | .error e => .error e fs
      | .ok (_, .dir _) =>
          match fs.readDir p with
          | .error e => .error e fs
          | .ok entries =>
              match deleteEntries (deleteTreeTo depth) p entries fs with
              | .error e fs => .error e fs
              | .ok _ fs => removeDir p fs
      | .ok _ => removeFile p fs

def deleteTree (p : HostPath) : FileAction Unit := deleteTreeTo pathLimit p

end FileAction

end PackageScript
