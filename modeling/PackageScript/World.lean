import PackageScript.Files.Basic
import PackageScript.Host.Basic
import PackageScript.ScriptError

set_option autoImplicit false

/-! # The world of a run

What commands act on: the files, and the requests to collaborators in the order in which they
were made. Notices are collected beside them. An action is something that may fail and that
changes the world; what it changed before it failed stays changed.
-/

namespace PackageScript

/-- The files, the requests made so far, and the notices given so far. -/
structure World where
  files : FileSystem
  requests : List Request
  notices : List Notice

namespace World

/-- A world in which nothing was asked or told yet. -/
def ofFiles (files : FileSystem) : World := ⟨files, [], []⟩

def noteAll (w : World) (notices : List Notice) : World :=
  { w with notices := w.notices ++ notices }

def note (w : World) (notice : Notice) : World := w.noteAll [notice]

/-- The world after a request, and whether it succeeded. -/
def ask (w : World) (host : Host) (r : Request) : Bool × World :=
  let (succeeded, files) := host.perform w.requests w.files r
  (succeeded, ⟨files, w.requests ++ [r], w.notices ++ host.remarks r⟩)

end World

/-- An action on the world. When it fails, what it has changed stays changed. -/
abbrev Action := EStateM ScriptError World

namespace Action

def note (notice : Notice) : Action Unit := fun w => .ok () (w.note notice)

def noteAll (notices : List Notice) : Action Unit := fun w => .ok () (w.noteAll notices)

/-- Asks a collaborator, and tells whether the request succeeded. -/
def request (host : Host) (r : Request) : Action Bool := fun w =>
  let (succeeded, w) := w.ask host r
  .ok succeeded w

def configs (host : Host) (kind : ConfigKind) : Action (List BootConfig) := fun w =>
  .ok ((host.after w.requests).configs kind) (w.ask host (.listConfigs kind)).2

def look {α : Type} (question : FileSystem → α) : Action α := fun w => .ok (question w.files) w

def files {α : Type} (action : FileAction α) : Action α := fun w =>
  match action w.files with
  | .ok a fs => .ok a { w with files := fs }
  | .error e fs => .error (.ofFileError e) { w with files := fs }

def fail {α : Type} (e : ScriptError) : Action α := throw e

end Action

end PackageScript
