import PackageScript.Files.Error
import PackageScript.Files.Tree

set_option autoImplicit false

/-! # Where a path leads

A file system is a tree with a working directory in it. A path is followed name by name from
the root or from the working directory. Links on the way are always followed. Whether the last
name is followed when it is a link depends on the operation, and so does what happens when the
last name does not exist: the walk itself only asks that its directory does.
-/

namespace PackageScript

/-- A tree of files whose directories are in order, and the place of the working directory. All
names in it are texts: a name whose bytes are no UTF-8 is outside the model. -/
structure FileSystem where
  root : Node
  ordered : root.Ordered
  home : Place

/-- A path has fewer bytes than this. -/
def pathLimit : Nat := 4096

/-- A name has no more bytes than this. -/
def nameLimit : Nat := 255

/-- At most this many links are followed for one path. -/
def linkLimit : Nat := 40

/-- Which links at the end of a path are followed. -/
inductive Follow where
  /-- Every link. -/
  | always
  /-- Only a link with a slash after it. -/
  | withSlash
  /-- No link. -/
  | never
deriving DecidableEq

/-- Where a path leads. `slash` says that the last name was written with a slash after it, in
the path or in a link that stands at its end. -/
structure Spot where
  place : Place
  slash : Bool
deriving DecidableEq

/-! ## Standing in a tree -/

/-- Where a walk stands in a tree. -/
structure Stand (root : Node) where
  /-- The names that lead from the root to the node, the last one first. -/
  back : List String
  node : Node
  found : root.get? back.reverse = some node

namespace Stand

variable {root : Node}

def place (s : Stand root) : Place := s.back.reverse

def top (root : Node) : Stand root := ⟨[], root, by simp⟩

theorem get?_place_append (s : Stand root) (q : Place) :
    root.get? (s.place ++ q) = s.node.get? q := by
  rw [Node.get?_append, place, s.found, Option.bind_some]

theorem get?_place (s : Stand root) : root.get? s.place = some s.node := s.found

/-- The node at a place, to stand on. -/
def ofPlace? (root : Node) (place : Place) : Option (Stand root) :=
  match h : root.get? place with
  | some n => some ⟨place.reverse, n, by simpa using h⟩
  | none => none

def down? (s : Stand root) (name : String) : Option (Stand root) :=
  match h : s.node.child? name with
  | some n =>
      some ⟨name :: s.back, n, by
        have := s.get?_place_append [name]
        simpa [place, Node.get?_cons, h] using this⟩
  | none => none

/-- One name up. The root stands above itself. -/
def up (s : Stand root) : Stand root :=
  match h : root.get? s.back.tail.reverse with
  | some n => ⟨s.back.tail, n, h⟩
  | none => s

theorem place_ofPlace? {place : Place} {s : Stand root} (h : ofPlace? root place = some s) :
    s.place = place := by
  unfold ofPlace? at h
  split at h
  · cases h
    simp [Stand.place]
  · cases h

theorem down?_eq_some {s c : Stand root} {name : String} (h : s.down? name = some c) :
    c.place = s.place ++ [name] ∧ s.node.child? name = some c.node := by
  unfold down? at h
  split at h
  · next hc =>
      cases h
      exact ⟨by simp [place], hc⟩
  · cases h

theorem down?_eq_none_iff {s : Stand root} {name : String} :
    s.down? name = none ↔ s.node.child? name = none := by
  unfold down?
  split <;> simp_all

theorem place_up (s : Stand root) : s.up.place = s.place.dropLast := by
  have hp : s.back.tail.reverse = s.place.dropLast := by simp [place]
  unfold up
  split
  · exact hp
  · next hn =>
      cases hb : s.back with
      | nil => simp [place, hb]
      | cons name rest =>
          have hf := s.found
          rw [hb, List.reverse_cons] at hf
          obtain ⟨c, hc, _⟩ := Node.get?_of_get?_append hf
          rw [hb, List.tail_cons, hc] at hn
          cases hn

end Stand

/-! ## Following paths -/

namespace FileSystem

variable (fs : FileSystem)

def node? (place : Place) : Option Node := fs.root.get? place

def entryAt? (place : Place) : Option Entry := fs.root.entryAt? place

def isDirAt (place : Place) : Bool := (fs.node? place).any Node.isDir

/-- The directory that a path starts from: the root or the working directory, if it is there. -/
def start? (p : HostPath) : Option (Stand fs.root) :=
  (if p.isRooted then some (.top fs.root) else Stand.ofPlace? fs.root fs.home).filter (·.node.isDir)

/-- Follows names from a directory. At a link that has to be followed the rest is handed to
`jump`, with the directory, the target, the names that remain and the slash. -/
def walkWith (jump : Stand fs.root → HostPath → List String → Bool → Except FileError Spot)
    (follow slash : Bool) : Stand fs.root → List String → Except FileError Spot
  | here, [] => .ok ⟨here.place, slash⟩
  | here, name :: rest =>
      if name = "." then walkWith jump follow slash here rest
      else if name = ".." then walkWith jump follow slash here.up rest
      else if name.utf8ByteSize > nameLimit then .error .nameTooLong
      else
        match here.down? name with
        | some next =>
            match next.node with
            | .dir _ => walkWith jump follow slash next rest
            | .link target =>
                if rest ≠ [] ∨ follow = true then jump here ⟨target⟩ rest slash
                else .ok ⟨next.place, slash⟩
            | .file _ => if rest = [] then .ok ⟨next.place, slash⟩ else .error .notDirectory
        | none => if rest = [] then .ok ⟨here.place ++ [name], slash⟩ else .error .notFound

/-- Follows names from a directory and at most `links` links. -/
def walk (follow : Bool) : Nat → Bool → Stand fs.root → List String → Except FileError Spot
  | 0 => fun slash => fs.walkWith (fun _ _ _ _ => .error .tooManyLinks) follow slash
  | links + 1 => fun slash =>
      fs.walkWith
        (fun here target rest slash =>
          walk follow links (slash || (rest.isEmpty && target.endsWithSlash))
            (if target.isRooted then .top fs.root else here) (target.steps ++ rest))
        follow slash

/-- Where a path leads. The last name need not exist, but its directory does. -/
def resolve (mode : Follow) (p : HostPath) : Except FileError Spot :=
  if p.text.toList.contains '\x00' then .error .nulInPath
  else if p.text.isEmpty then .error .notFound
  else if p.text.utf8ByteSize ≥ pathLimit then .error .nameTooLong
  else
    match fs.start? p with
    | none => .error .notFound
    | some here =>
        let follow :=
          match mode with
          | .always => true
          | .withSlash => p.endsWithSlash
          | .never => false
        fs.walk follow linkLimit p.endsWithSlash here p.steps

/-- The place of what a path names, and the node there. -/
def find (mode : Follow) (p : HostPath) : Except FileError (Place × Node) :=
  match fs.resolve mode p with
  | .error e => .error e
  | .ok spot =>
      match fs.node? spot.place with
      | none => .error .notFound
      | some (.dir es) => .ok (spot.place, .dir es)
      | some node => if spot.slash then .error .notDirectory else .ok (spot.place, node)

/-- What a path names, links at its end followed. -/
def stat (p : HostPath) : Except FileError (Place × Node) := fs.find .always p

/-- What a path names, a link at its end being the link itself. -/
def lstat (p : HostPath) : Except FileError (Place × Node) := fs.find .withSlash p

/-- Whether a path names something, links at its end followed. -/
def exists? (p : HostPath) : Bool := (fs.stat p).isOk

/-- Whether a path names a directory, links at its end followed. -/
def isDir (p : HostPath) : Bool :=
  match fs.stat p with
  | .ok (_, .dir _) => true
  | _ => false

/-- Whether a path names a file, links at its end followed. -/
def isFile (p : HostPath) : Bool :=
  match fs.stat p with
  | .ok (_, .file _) => true
  | _ => false

/-- Whether a path names something that is not a directory, a link at its end being the link
itself. -/
def isNonDir (p : HostPath) : Bool :=
  match fs.lstat p with
  | .ok (_, .dir _) => false
  | .ok _ => true
  | .error _ => false

def readBytes (p : HostPath) : Except FileError ByteArray :=
  match fs.stat p with
  | .error e => .error e
  | .ok (_, .file bytes) => .ok bytes
  | .ok _ => .error .isDirectory

def readText (p : HostPath) : Except FileError String :=
  match fs.readBytes p with
  | .error e => .error e
  | .ok bytes =>
      match String.fromUTF8? bytes with
      | some text => .ok text
      | none => .error .notText

/-- The names in the directory that a path names, in increasing order. -/
def readDir (p : HostPath) : Except FileError (List (String × Entry)) :=
  match fs.stat p with
  | .error e => .error e
  | .ok (_, .dir es) => .ok (es.map fun e => (e.1, e.2.entry))
  | .ok _ => .error .notDirectory

/-- The path of the same thing from the root, without links, `.` and `..`. -/
def canonical (p : HostPath) : Except FileError HostPath :=
  match fs.stat p with
  | .error e => .error e
  | .ok (place, _) => .ok (.ofParts ("/" :: place))

end FileSystem

end PackageScript
