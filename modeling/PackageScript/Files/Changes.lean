import PackageScript.Files.Mirror

set_option autoImplicit false

/-! # What changed in a tree

The steps that turn one tree into another: first everything that is gone is removed, what is
below a directory before the directory, then what is new is made, a directory before what is
below it. Links are neither made nor removed.
-/

namespace PackageScript

/-- One step that changes a tree. -/
inductive Change where
  | removeFile (place : Place)
  | removeDir (place : Place)
  | makeDir (place : Place)
  | writeFile (place : Place) (bytes : ByteArray)

namespace Change

/-- The removal of what stands at a place, if something of another kind or nothing stands there
afterwards. -/
def removal (before after : Node) (place : Place) : Option Change :=
  match before.entryAt? place, after.entryAt? place with
  | some .dir, some .dir => none
  | some .dir, _ => some (.removeDir place)
  | some (.file _), some (.file _) => none
  | some (.file _), _ => some (.removeFile place)
  | _, _ => none

/-- The making of what stands at a place afterwards, if the same did not stand there before. -/
def making (before after : Node) (place : Place) : Option Change :=
  match before.entryAt? place, after.entryAt? place with
  | some .dir, some .dir => none
  | _, some .dir => some (.makeDir place)
  | some (.file old), some (.file new) =>
      if old.data = new.data then none else some (.writeFile place new)
  | _, some (.file new) => some (.writeFile place new)
  | _, _ => none

/-- The steps from one tree to another. -/
def between (before after : Node) : List Change :=
  (before.inventory.reverse.filterMap fun e => removal before after e.names)
    ++ after.inventory.filterMap fun e => making before after e.names

end Change

end PackageScript
