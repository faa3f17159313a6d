import PackageScript.Path.HostPath
import PackageScript.Text.Quoted

set_option autoImplicit false

/-! # Volumes and configuration

Scripts name files through a volume such as `sdmc:/`. A volume maps that mark to a directory
of the host, so one script can run on the device and on an image of its card. The
configuration holds the volumes and the names of the files that the interpreter itself uses.
-/

namespace PackageScript

/-- The mark of the card, the volume that rooted paths are placed on. -/
def cardMark : String := "sdmc:/"

/-- A volume: the mark that scripts write, final `:/` included, and its host directory. -/
structure Volume where
  mark : String
  root : HostPath
deriving DecidableEq, Inhabited

/-- What every run is configured with. -/
structure Config where
  /-- The volumes, the first that fits is used. -/
  volumes : List Volume
  /-- The file that `logging` writes to, as a script path. -/
  logFile : String
  /-- The script that `exec` reads, next to the running one. -/
  bootScriptName : String
  /-- The file that `set-footer` writes to, next to the running script. -/
  packageConfigName : String
  /-- The target of a mirror command that names none. -/
  mirrorTarget : String
  /-- Whether commands of a section for another platform are skipped. -/
  strictSections : Bool
deriving DecidableEq

namespace Config

/-- The configuration whose card is a given directory. -/
def withRoot (root : HostPath) : Config where
  volumes := [⟨cardMark, root⟩]
  logFile := "sdmc:/config/ultrahand/log.txt"
  bootScriptName := "boot_package.ini"
  packageConfigName := "config.ini"
  mirrorTarget := cardMark
  strictSections := false

/-- The configuration whose card is the working directory. -/
def standard : Config := withRoot ⟨"."⟩

/-- Maps the card to another directory, adding the card if no volume has its mark. -/
def setCardRoot (config : Config) (root : HostPath) : Config :=
  let rec go : List Volume → List Volume
    | [] => [⟨cardMark, root⟩]
    | v :: vs => if v.mark = cardMark then { v with root := root } :: vs else v :: go vs
  { config with volumes := go config.volumes }

def addVolume (config : Config) (volume : Volume) : Config :=
  { config with volumes := config.volumes ++ [volume] }

end Config

/-! ## From arguments to host paths -/

/-- Runs of slashes shortened to one. `afterSlash` says whether a slash stands in front. -/
def collapseSlashes : Bool → List Char → List Char
  | _, [] => []
  | afterSlash, c :: cs =>
      if c = '/' then
        if afterSlash then collapseSlashes true cs else '/' :: collapseSlashes true cs
      else c :: collapseSlashes false cs

/-- A path with its leading slash replaced by the card's mark. -/
def placeOnCard : List Char → List Char
  | '/' :: rest => cardMark.toList ++ rest
  | path => path

/-- The script path that an argument stands for: one layer of quotes comes off, a rooted path
is placed on the card, and runs of slashes become one slash. -/
def scriptPath (raw : String) : String :=
  String.ofList (collapseSlashes false (placeOnCard (Text.unquoted raw.toList)))

/-- The host path of what follows a volume's mark. Slashes in front would make it rooted and
are dropped. -/
def Volume.locate (volume : Volume) (rest : List Char) : HostPath :=
  match rest.dropWhile (· == '/') with
  | [] => volume.root
  | below => volume.root.join ⟨String.ofList below⟩

/-- The host path of a script path: below the root of the first volume whose mark it begins
with, and the path itself if there is none. A slash at the end is kept. -/
def Config.hostPath (config : Config) (path : String) : HostPath :=
  let found := config.volumes.findSome? fun v =>
    (Text.dropStart? v.mark.toList path.toList).map v.locate
  found.getD ⟨path⟩

end PackageScript
