import PackageScript.Host.Basic
import PackageScript.Placeholder.ListItems
import PackageScript.Placeholder.Splice
import PackageScript.Script.Basic
import PackageScript.Volume

set_option autoImplicit false

/-! # Resolving arguments

The placeholders of an argument are replaced source by source. Looking values up changes nothing
but leaves a trail: the requests that were made and what was told on the way. The lookups of one
command do not depend on each other.
-/

namespace PackageScript.Placeholder

/-- What lookups depend on. -/
structure Context where
  config : Config
  host : Host
  files : FileSystem

/-- What lookups leave behind besides their answers. -/
structure Trail where
  requests : List Request
  notices : List Notice

namespace Trail

def empty : Trail := ⟨[], []⟩

def append (a b : Trail) : Trail := ⟨a.requests ++ b.requests, a.notices ++ b.notices⟩

instance : Append Trail := ⟨append⟩

/-- The trail of some lookups after one another. -/
def ofList (trails : List Trail) : Trail := trails.foldr append empty

end Trail

namespace Context

variable (c : Context)

/-- The document that a source with a given value reads from. -/
def origin (source : Source) (bound : String) : Json.Origin :=
  match source with
  | .jsonFile => .file (c.config.hostPath bound)
  | _ => .text bound

/-- The request that a lookup makes. -/
def requestFor (source : Source) (bound payload : String) : Option Request :=
  match source, components payload with
  | .hexFile, parts => some (.hexRead (c.config.hostPath bound) parts)
  | .iniFile, [section_, key] => some (.iniGet (c.config.hostPath bound) section_ key)
  | _, _ => none

/-- What the payload of a placeholder leads to. -/
def lookup (source : Source) (bound payload : String) : Option String :=
  match source, components payload with
  | .hexFile, parts => c.host.hexValue c.files (c.config.hostPath bound) parts
  | .iniFile, [section_, key] =>
      c.host.iniValue c.files (c.config.hostPath bound) section_ key
  | .iniFile, _ => none
  | .list, _ => listItem? bound payload
  | .json, keys | .jsonFile, keys => (c.host.json c.files (c.origin source bound) keys).1

def trailOf (source : Source) (bound payload : String) : Trail :=
  match source with
  | .hexFile | .iniFile =>
      match c.requestFor source bound payload with
      | some r => ⟨[r], c.host.remarks r⟩
      | none => .empty
  | .list => .empty
  | .json | .jsonFile =>
      ⟨[], (c.host.json c.files (c.origin source bound) (components payload)).2⟩

/-- The trail of all lookups of a splice, and the fault that ended it. -/
def trailOfSplice (source : Source) (bound : String) (s : Splice) : Trail :=
  Trail.ofList (s.payloads.map (c.trailOf source bound)) ++ ⟨[], s.fault.toList⟩

end Context

/-- A text after its placeholders were replaced as far as possible. -/
structure Resolution where
  text : String
  /-- Whether nothing failed. -/
  complete : Bool
  trail : Trail

namespace Context

variable (c : Context)

/-- Replaces the placeholders that read from one source. -/
def resolveSource (bindings : Bindings) (source : Source) (text : String) : Resolution :=
  if Text.contains text source.opening then
    match bindings.get source with
    | none => ⟨text, false, ⟨[], [.unbound source.opening]⟩⟩
    | some bound =>
        let s := Splice.run source.opening.toList (c.lookup source bound) text.toList
        ⟨String.ofList s.text, s.complete, c.trailOfSplice source bound s⟩
  else ⟨text, true, .empty⟩

/-- Replaces the placeholders of one source after those of others. -/
def resolveNext (bindings : Bindings) (r : Resolution) (source : Source) : Resolution :=
  let next := c.resolveSource bindings source r.text
  ⟨next.text, r.complete && next.complete, r.trail ++ next.trail⟩

def resolve (bindings : Bindings) (text : String) : Resolution :=
  Source.resolutionOrder.foldl (c.resolveNext bindings) ⟨text, true, .empty⟩

end Context

/-- A command after its placeholders were replaced as far as possible. -/
structure CommandResolution where
  tokens : Command
  complete : Bool
  trail : Trail

/-- Replaces the placeholders of a command's arguments. The name stays as it is. -/
def Context.resolveCommand (c : Context) (bindings : Bindings) :
    Command → CommandResolution
  | [] => ⟨[], true, .empty⟩
  | name :: args =>
      let rs := args.map (c.resolve bindings)
      ⟨name :: rs.map Resolution.text, rs.all Resolution.complete,
        Trail.ofList (rs.map Resolution.trail)⟩

end PackageScript.Placeholder
