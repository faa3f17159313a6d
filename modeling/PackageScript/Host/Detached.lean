import PackageScript.Host.Basic

set_option autoImplicit false

/-! # A host without collaborators

Away from the device nobody answers: lookups find nothing but what stands in JSON documents, the
boot loader lists nothing, and every request fails. Each request is told, except for that for a
list.
-/

namespace PackageScript.Host

/-- What is told of a request that nobody answers. -/
def detachedRemarks : Request → List Notice
  | .listConfigs _ => []
  | r => [.declined r]

/-- The host of a platform without collaborators. -/
def detached (platform : Platform) : Host where
  platform := platform
  rebootsToConfig := false
  readIni _ _ _ _ _ := none
  readHex _ _ _ _ := none
  json := Json.query
  bootList _ _ := []
  perform _ fs _ := (false, fs)
  remarks := detachedRemarks

end PackageScript.Host
