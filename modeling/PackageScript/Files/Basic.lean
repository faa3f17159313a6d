import PackageScript.Files.Resolve

set_option autoImplicit false

/-! # Single file operations

The operations that change one entry of a file system: making a directory, opening a file for
writing, writing, removing, renaming. A failed operation leaves the file system as it was. An
action is a function on file systems that may fail; what it changed before it failed stays
changed.
-/

namespace PackageScript

namespace FileSystem

def setFile (fs : FileSystem) (place : Place) (bytes : ByteArray) : FileSystem where
  root := fs.root.put place (.file bytes)
  ordered := fs.ordered.put (.file _)
  home := fs.home

def setLink (fs : FileSystem) (place : Place) (target : String) : FileSystem where
  root := fs.root.put place (.link target)
  ordered := fs.ordered.put (.link _)
  home := fs.home

/-- Puts a node that is not a directory at a place. -/
def setNode (fs : FileSystem) (place : Place) : Node → FileSystem
  | .file bytes => fs.setFile place bytes
  | .link target => fs.setLink place target
  | .dir _ => fs

def setDir (fs : FileSystem) (place : Place) : FileSystem where
  root := fs.root.put place (.dir [])
  ordered := fs.ordered.put (.dir _ .nil (by simp))
  home := fs.home

def erase (fs : FileSystem) (place : Place) : FileSystem where
  root := fs.root.erase place
  ordered := fs.ordered.erase
  home := fs.home

/-- A file system with an empty directory as its working directory. -/
def empty (home : Place) : FileSystem where
  root := home.foldr (fun name below => .dir [(name, below)]) (.dir [])
  ordered := by
    induction home with
    | nil => exact .dir _ .nil (by simp)
    | cons name rest ih =>
        exact .dir _ (by simp) fun e he => by
          rw [List.mem_singleton.1 he]
          exact ih
  home := home

end FileSystem

/-- An action on a file system. When it fails, what it has changed stays changed. -/
abbrev FileAction := EStateM FileError FileSystem

namespace FileAction

def ask {α : Type} (question : FileSystem → Except FileError α) : FileAction α := fun fs =>
  match question fs with
  | .ok a => .ok a fs
  | .error e => .error e fs

def look {α : Type} (question : FileSystem → α) : FileAction α := fun fs => .ok (question fs) fs

/-- Makes one directory. Its own directory must exist. A link in its place is not followed. -/
def makeDir (p : HostPath) : FileAction Unit := fun fs =>
  match fs.resolve .never p with
  | .error e => .error e fs
  | .ok spot =>
      match fs.node? spot.place with
      | some _ => .error .alreadyExists fs
      | none => .ok () (fs.setDir spot.place)

/-- The place that a file to be written has: that of the file that the path names, or a new
one in an existing directory. Links at the end are followed, also to a file that does not exist
yet. -/
def writePlace (p : HostPath) (fs : FileSystem) : Except FileError Place :=
  match fs.resolve .never p with
  | .error e => .error e
  | .ok _ =>
      if p.endsWithSlash then .error .isDirectory
      else
        match fs.resolve .always p with
        | .error e => .error e
        | .ok spot =>
            if spot.slash || fs.isDirAt spot.place then .error .isDirectory else .ok spot.place

/-- Makes an empty file, or empties the one that is there. -/
def createFile (p : HostPath) : FileAction Place := fun fs =>
  match writePlace p fs with
  | .error e => .error e fs
  | .ok place => .ok place (fs.setFile place .empty)

/-- Writes the whole contents of a file that is open at a place. -/
def writeAt (place : Place) (bytes : ByteArray) : FileAction Unit := fun fs =>
  .ok () (fs.setFile place bytes)

/-- Writes the whole contents of a file, making it if needed. -/
def writeFile (p : HostPath) (bytes : ByteArray) : FileAction Unit := do
  let place ← createFile p
  writeAt place bytes

/-- Adds bytes at the end of a file, making it if needed. -/
def appendFile (p : HostPath) (bytes : ByteArray) : FileAction Unit := fun fs =>
  match writePlace p fs with
  | .error e => .error e fs
  | .ok place =>
      match fs.node? place with
      | some (.file old) => .ok () (fs.setFile place (old ++ bytes))
      | _ => .ok () (fs.setFile place bytes)

def makeLink (p : HostPath) (target : String) : FileAction Unit := fun fs =>
  match fs.resolve .never p with
  | .error e => .error e fs
  | .ok spot =>
      match fs.node? spot.place with
      | some _ => .error .alreadyExists fs
      | none => .ok () (fs.setLink spot.place target)

/-- Removes a file or a link. A link is not followed. -/
def removeFile (p : HostPath) : FileAction Unit := fun fs =>
  match fs.resolve .never p with
  | .error e => .error e fs
  | .ok spot =>
      match fs.node? spot.place with
      | none => .error .notFound fs
      | some (.dir _) => .error .isDirectory fs
      | some _ =>
          if p.endsWithSlash then .error .notDirectory fs else .ok () (fs.erase spot.place)

/-- Removes an empty directory. A path that ends in `.` or `..`, or that has no name at all,
names no entry that could be removed. -/
def removeDir (p : HostPath) : FileAction Unit := fun fs =>
  match fs.resolve .never p with
  | .error e => .error e fs
  | .ok spot =>
      match p.steps.getLast? with
      | none => .error .busy fs
      | some "." => .error .invalidArgument fs
      | some ".." => .error .notEmpty fs
      | some _ =>
          match fs.node? spot.place with
          | none => .error .notFound fs
          | some (.dir []) => .ok () (fs.erase spot.place)
          | some (.dir _) => .error .notEmpty fs
          | some _ => .error .notDirectory fs

/-- Whether the last part of a path is a name that a directory can have as an entry. -/
def endsInName (p : HostPath) : Bool :=
  match p.steps.getLast? with
  | none => false
  | some name => name != "." && name != ".."

/-- Gives a file or a link another place in one step. A file or link at the new place is
replaced, a directory is not. Directories are not moved this way. -/
def rename (old new : HostPath) : FileAction Unit := fun fs =>
  match fs.resolve .never old with
  | .error e => .error e fs
  | .ok source =>
      match fs.resolve .never new with
      | .error e => .error e fs
      | .ok target =>
          if !endsInName old || !endsInName new then .error .busy fs
          else
            match fs.node? source.place with
            | none => .error .notFound fs
            | some (.dir _) => .error .isDirectory fs
            | some node =>
                if source.slash || target.slash then .error .notDirectory fs
                else if fs.isDirAt target.place then
                  -- the directory that holds the source is not replaced but found in use
                  if target.place.isPrefixOf source.place then .error .notEmpty fs
                  else .error .isDirectory fs
                else if target.place = source.place then .ok () fs
                else
                  .ok () ((fs.erase source.place).setNode target.place node)

end FileAction

end PackageScript
