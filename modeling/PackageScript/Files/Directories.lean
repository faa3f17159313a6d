import PackageScript.Files.Basic

set_option autoImplicit false

/-! # Making directories with their parents

A directory is made first and its parents only when that fails for want of them. A path that
already leads to a directory is fine.
-/

namespace PackageScript

namespace FileAction

/-- Makes a directory, and before it, if that fails for want of it, the one that the parts above
it name, the nearest part first. -/
def makeDirs : HostPath → List String → FileAction Unit
  | p, [] => fun fs =>
      match makeDir p fs with
      | .ok _ fs => .ok () fs
      | .error e fs => if fs.isDir p then .ok () fs else .error e fs
  | p, part :: above => fun fs =>
      match makeDir p fs with
      | .ok _ fs => .ok () fs
      | .error .notFound fs =>
          match makeDirs (.ofParts (part :: above).reverse) above fs with
          | .error e fs => .error e fs
          | .ok _ fs =>
              match makeDir p fs with
              | .ok _ fs => .ok () fs
              | .error e fs => if fs.isDir p then .ok () fs else .error e fs
      | .error e fs => if fs.isDir p then .ok () fs else .error e fs

/-- Makes a directory and every missing parent. Nothing is to be made for the empty path. -/
def createDirAll (p : HostPath) : FileAction Unit :=
  match p.parts.reverse with
  | [] => pure ()
  | _ :: above => makeDirs p above

/-- Makes the directories that a path needs around its last part. -/
def ensureParent (p : HostPath) : FileAction Unit :=
  match p.parent? with
  | some parent => createDirAll parent
  | none => pure ()

end FileAction

end PackageScript
