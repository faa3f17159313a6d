import PackageScript.Json.Query
import PackageScript.Platform

set_option autoImplicit false

/-! # Hosts

A host is what the interpreter runs on: a platform, and collaborators that answer requests. Some
requests only look something up. All others either succeed or fail, and may change files. Every
answer may depend on what was asked before: a host that was asked some things goes on as another
host does from the start (`Host.after`). What is looked up for the placeholders of one command is
told by the requests before the command. Only documents are looked into without a request, so what
is found there is told by the files.
-/

namespace PackageScript

/-- A platform and its collaborators. -/
structure Host where
  /-- The hardware revision. -/
  platform : Platform
  /-- Whether the boot loader can be told which entry to launch on every platform. -/
  rebootsToConfig : Bool
  /-- The value of a key in a section of an ini file, given the requests before. -/
  readIni : List Request → FileSystem → HostPath → String → String → Option String
  /-- The bytes of a binary file that a list of texts addresses, as hexadecimal digits, given the
  requests before. -/
  readHex : List Request → FileSystem → HostPath → List String → Option String
  /-- What a list of keys leads to in a JSON document, and what is told on the way. -/
  json : FileSystem → Json.Origin → List String → Option String × List Notice
  /-- The entries of a list of the boot loader, given the requests before. -/
  bootList : List Request → ConfigKind → List BootConfig
  /-- Whether a request succeeds, and the files after it, given the requests before it. -/
  perform : List Request → FileSystem → Request → Bool × FileSystem
  /-- What the host tells about a request. -/
  remarks : Request → List Notice

namespace Host

variable (host : Host)

/-- A host once it was asked some things. -/
def after (asked : List Request) : Host where
  platform := host.platform
  rebootsToConfig := host.rebootsToConfig
  readIni since := host.readIni (asked ++ since)
  readHex since := host.readHex (asked ++ since)
  json := host.json
  bootList since := host.bootList (asked ++ since)
  perform since := host.perform (asked ++ since)
  remarks := host.remarks

theorem after_after (asked more : List Request) :
    (host.after asked).after more = host.after (asked ++ more) := by
  simp only [after, List.append_assoc]

/-- The value of a key in a section of an ini file, if that is asked first. -/
def iniValue : FileSystem → HostPath → String → String → Option String := host.readIni []

/-- The bytes of a binary file that a list of texts addresses, if they are asked for first. -/
def hexValue : FileSystem → HostPath → List String → Option String := host.readHex []

/-- The entries of a list of the boot loader, if they are asked for first. -/
def configs : ConfigKind → List BootConfig := host.bootList []

end Host

end PackageScript
