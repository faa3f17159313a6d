import PackageScript.Text.Search
import PackageScript.Text.Blank

set_option autoImplicit false

/-! # Paths of the host

A host path is the text that is handed to the file system. Two host paths are compared part
by part: doubled slashes, a slash at the end and `.` parts other than a leading one make no
difference, `..` parts do. Nothing here looks at a file system.
-/

namespace PackageScript

/-- A path on the host, as it is written. -/
structure HostPath where
  text : String
deriving DecidableEq, Inhabited

namespace HostPath

def isRooted (p : HostPath) : Bool := p.text.toList.head? == some '/'

def endsWithSlash (p : HostPath) : Bool := Text.endsWith p.text '/'

/-- The names between the slashes, `.` and `..` included. -/
def steps (p : HostPath) : List String :=
  (Text.splitAt '/' p.text).filter fun s => !s.isEmpty

/-- The parts that comparisons see: `/` for a rooted path, a leading `.` of a path that is not
rooted, and every name other than `.`. -/
def parts (p : HostPath) : List String :=
  if p.isRooted then "/" :: p.steps.filter (· != ".")
  else
    match p.steps with
    | [] => []
    | first :: rest =>
        if first = "." then "." :: rest.filter (· != ".")
        else first :: rest.filter (· != ".")

def ofParts (parts : List String) : HostPath :=
  match parts with
  | "/" :: rest => ⟨"/" ++ "/".intercalate rest⟩
  | parts => ⟨"/".intercalate parts⟩

/-- Whether two paths have the same parts. -/
def same (p q : HostPath) : Bool := p.parts == q.parts

/-- Whether the parts of `q` begin with the parts of `p`. -/
def isStartOf (p q : HostPath) : Bool := p.parts.isPrefixOf q.parts

/-- The parts of `q` behind those of `p`, if its parts begin with them. -/
def below? (p q : HostPath) : Option (List String) :=
  if p.isStartOf q then some (q.parts.drop p.parts.length) else none

/-- `relative` below `base`. A rooted path replaces the base, and an empty one adds a slash. -/
def join (base relative : HostPath) : HostPath :=
  if relative.isRooted then relative
  else if base.text.isEmpty || base.endsWithSlash then ⟨base.text ++ relative.text⟩
  else ⟨base.text ++ "/" ++ relative.text⟩

def child (base : HostPath) (name : String) : HostPath := base.join ⟨name⟩

/-- The path without its last part. A root and the empty path have no parent. -/
def parent? (p : HostPath) : Option HostPath :=
  match p.parts with
  | [] => none
  | ["/"] => none
  | parts => some (ofParts parts.dropLast)

/-- The last part of a path if it is a name, not `/`, `.` or `..`. -/
def fileName? (p : HostPath) : Option String :=
  match p.parts.getLast? with
  | some name => if name = "/" ∨ name = "." ∨ name = ".." then none else some name
  | none => none

/-- Where something that comes from `src` lands inside the directory `dst`: under the last
name of `src`. -/
def into (dst src : HostPath) : HostPath :=
  match src.fileName? with
  | some name => dst.child name
  | none => dst

end HostPath

end PackageScript
