import PackageScript.Text.Search
import PackageScript.Text.Blank

set_option autoImplicit false

/-! # Protected paths

Commands that delete or move ask here first. The answer depends on the text of the script
path alone. A root is matched with its final slash, so `sdmc:/Nintendo` without it counts as
an entry of `sdmc:/`.
-/

namespace PackageScript.Guard

/-- Roots that are never deleted or moved as a whole. -/
def protectedRoots : List String :=
  ["sdmc:/Nintendo/", "sdmc:/emuMMC/", "sdmc:/atmosphere/", "sdmc:/bootloader/",
    "sdmc:/switch/", "sdmc:/config/", "sdmc:/"]

/-- Roots at and below which nothing is deleted or moved. -/
def ultraProtectedRoots : List String := ["sdmc:/Nintendo/", "sdmc:/emuMMC/"]

/-- Texts that may lead out of a directory. -/
def traversals : List String := ["..", "~"]

/-- Patterns for everything in a directory. -/
def bareWildcards : List String := ["*", "*/"]

/-- The characters that make a volume's mark a pattern. -/
def isWildcardChar (c : Char) : Bool := c == '*' || c == '?' || c == '['

def segments (path : String) : List String :=
  (Text.splitAt '/' path).filter fun s => !s.isEmpty

/-- Whether a path is a protected root, everything in one, or has a segment below one that
may lead out of it. -/
def hitsRoot (path root : String) : Bool :=
  path == root ||
    match Text.afterStart? root path with
    | some rest =>
        bareWildcards.contains rest ||
          (segments rest).any fun s => traversals.any (Text.contains s)
    | none => false

/-- Whether a path has a volume whose mark is a pattern, or leads out of it. -/
def hitsVolume (path : String) : Bool :=
  match Text.cutAt? [':', '/'] path.toList with
  | some (volume, rest) =>
      (segments (String.ofList rest)).any traversals.contains || volume.any isWildcardChar
  | none => false

/-- Whether deleting or moving a path is refused. -/
def isDangerous (path : String) : Bool :=
  ultraProtectedRoots.any (Text.startsWith path)
    || protectedRoots.any (hitsRoot path)
    || hitsVolume path
    || traversals.any (Text.contains path)

end PackageScript.Guard
