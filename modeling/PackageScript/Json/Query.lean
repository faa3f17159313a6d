import PackageScript.Files.Resolve
import PackageScript.Json.Printer
import PackageScript.Json.Reader
import PackageScript.Notice

set_option autoImplicit false

/-! # Looking something up in a JSON document -/

namespace PackageScript.Json

/-- Where a document comes from. -/
inductive Origin where
  | text (text : String)
  | file (path : HostPath)
deriving DecidableEq

/-- The document of an origin. A notice says why there is none. -/
def load (fs : FileSystem) (origin : Origin) : Except Notice Json := do
  let text ←
    match origin with
    | .text t => pure t
    | .file p =>
        match fs.readText p with
        | .ok t => pure t
        | .error e => throw (.jsonUnreadable p e)
  match ofText? text with
  | some v => pure v
  | none => throw .jsonMalformed

/-- What a list of keys leads to in the document of an origin, as a text. -/
def query (fs : FileSystem) (origin : Origin) (keys : List String) :
    Option String × List Notice :=
  match load fs origin with
  | .error notice => (none, [notice])
  | .ok v => ((v.at? keys).bind answer?, [])

end PackageScript.Json
