import PackageScript.Files.Resolve
import PackageScript.Notice

set_option autoImplicit false

/-! # Path patterns

A path without `*` stands for itself, whether it exists or not. In any other path every segment
with a `*` is matched against the entries of the directories reached so far, one level for each
segment, and every other segment has to exist. A slash at the end asks for directories.
-/

namespace PackageScript

def isPattern (text : String) : Bool := text.toList.contains '*'

/-- Puts a name in front of the first one that does not come before it. -/
def insertName (name : String) : List String → List String
  | [] => [name]
  | k :: rest => if k < name then k :: insertName name rest else name :: k :: rest

def sortNames (names : List String) : List String := names.foldr insertName []

/-- A directory can be listed in any order. Where it is in order there is nothing to sort. -/
theorem sortNames_eq_self {names : List String} (h : names.Pairwise (· < ·)) :
    sortNames names = names := by
  induction names with
  | nil => rfl
  | cons name rest ih =>
      have hrest : rest.foldr insertName [] = rest := ih (List.pairwise_cons.1 h).2
      rw [sortNames, List.foldr_cons, hrest]
      cases rest with
      | nil => rfl
      | cons k rest =>
          have hlt := (List.pairwise_cons.1 h).1 k List.mem_cons_self
          rw [insertName, if_neg (String.lt_asymm hlt)]

namespace FileSystem

variable (fs : FileSystem)

/-- The names in a directory in increasing order, none if it cannot be read. The empty path
stands for the working directory. Names are texts, so that each is taken as it is. -/
def namesIn (dir : HostPath) : List String :=
  match fs.readDir (if dir.text.isEmpty then ⟨"."⟩ else dir) with
  | .ok entries => sortNames (entries.map Prod.fst)
  | .error _ => []

/-- The paths that one segment leads to from the directories reached so far. -/
def follow (matches? : String → Bool) (dirs : List HostPath) : List HostPath :=
  dirs.flatMap fun dir => ((fs.namesIn dir).filter matches?).map dir.child

/-- The paths that the remaining segments lead to. Every path on the way is a directory, and the
last one too if `dirsOnly`. -/
def descend (matcher : String → Except GlobFault (String → Bool)) (dirsOnly : Bool) :
    List String → List HostPath → List HostPath × List Notice
  | [], dirs => (dirs, [])
  | segment :: rest, dirs =>
      let keep := fun p => (rest.isEmpty && !dirsOnly) || fs.isDir p
      if isPattern segment then
        match matcher segment with
        | .error fault => ([], [.invalidPattern segment fault])
        | .ok matches? =>
            match (fs.follow matches? dirs).filter keep with
            | [] => ([], [])
            | next => descend matcher dirsOnly rest next
      else
        match (dirs.map (·.child segment)).filter fun p => fs.exists? p && keep p with
        | [] => ([], [])
        | next => descend matcher dirsOnly rest next

/-- The paths that a path pattern stands for, with a given matcher for single segments. -/
def expandWith (matcher : String → Except GlobFault (String → Bool)) (pattern : HostPath) :
    List HostPath × List Notice :=
  if isPattern pattern.text then
    let fixed := pattern.steps.takeWhile fun s => !isPattern s
    let open_ := pattern.steps.dropWhile fun s => !isPattern s
    let base := fixed.foldl HostPath.child ⟨if pattern.isRooted then "/" else ""⟩
    fs.descend matcher pattern.endsWithSlash open_ [base]
  else ([pattern], [])

def expand (pattern : HostPath) : List HostPath × List Notice :=
  fs.expandWith Glob.matcher pattern

end FileSystem

end PackageScript
