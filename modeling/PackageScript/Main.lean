import PackageScript.Cli.Program
import PackageScript.Files.Changes

set_option autoImplicit false

/-! # The command line

The program works on the files that are listed on its standard input, one path a line, with a
slash at the end of a directory. It reads them all, runs, prints what there is to print, and
makes the changes that the run has made to the listed tree. So that it sees a whole directory,
it is called as in
`find . -type d -printf '%p/\n' -o -type f -print | packscript package.ini Option`.
-/

namespace PackageScript.Cli

/-- The lines of a stream, the last one first. -/
partial def readLines (input : IO.FS.Stream) (above : List String) : IO (List String) := do
  let line ← input.getLine
  if line.isEmpty then pure above
  else
    readLines input
      ((if Text.endsWith line '\n' then (line.dropEnd 1).toString else line) :: above)

/-- Adds what stands at a path to a file system. -/
def readEntry (fs : FileSystem) (path : String) : IO FileSystem := do
  let add : FileAction Unit ←
    if Text.endsWith path '/' then pure (FileAction.createDirAll ⟨path⟩)
    else do
      let bytes ← IO.FS.readBinFile path
      pure do
        FileAction.ensureParent ⟨path⟩
        FileAction.writeFile ⟨path⟩ bytes
  match add fs with
  | .ok _ fs => pure fs
  | .error e _ => throw (IO.userError (because path e))

def pathOf (place : Place) : String := (HostPath.ofParts ("/" :: place)).text

def apply : Change → IO Unit
  | .removeFile place => IO.FS.removeFile (pathOf place)
  | .removeDir place => IO.FS.removeDir (pathOf place)
  | .makeDir place => IO.FS.createDir (pathOf place)
  | .writeFile place bytes => IO.FS.writeBinFile (pathOf place) bytes

def runListed (args : List String) : IO UInt32 := do
  let home := (HostPath.mk (← IO.currentDir).toString).steps
  let paths := (← readLines (← IO.getStdin) []).reverse
  let before ← paths.foldlM readEntry (FileSystem.empty home)
  let started ← IO.monoMsNow
  let (output, world) := run args (World.ofFiles before)
  let changes := Change.between before.root world.files.root
  changes.forM apply
  let milliseconds := (← IO.monoMsNow) - started
  output.lines.forM fun line => IO.println (line.render (Text.numeralOf milliseconds))
  if !output.error.isEmpty then IO.eprintln output.error
  pure output.exitCode.toUInt32

end PackageScript.Cli

def main (args : List String) : IO UInt32 := PackageScript.Cli.runListed args
