import PackageScript.Engine.Execute

set_option autoImplicit false

/-! # Interpreting a block

The commands of a block run in order. Before each one it is decided whether it runs at all:
markers open retry chains and platform sections, and in a retry chain nothing runs after a
failure. A retry chain that is opened after a chain that succeeded ends the block.
-/

namespace PackageScript

def retryMarker : String := "try:"

/-- What happens at a command. -/
inductive Verdict where
  /-- It has no tokens. -/
  | blank
  /-- It opens a retry chain. -/
  | chain
  /-- It opens a retry chain that is not needed. -/
  | finished
  /-- It opens a section for a platform. -/
  | platform (named : Platform)
  /-- It stands in a section for another platform. -/
  | elsewhere (name : String)
  /-- It stands in a retry chain that has failed. -/
  | broken
  /-- It runs. -/
  | run
deriving DecidableEq

namespace Machine

def verdict (m : Machine) (strict : Bool) : Command → Verdict
  | [] => .blank
  | name :: _ =>
      if name = retryMarker then
        if m.session.success && m.state.retryCount != 0 then .finished else .chain
      else
        match Platform.ofMarker? name with
        | some p => .platform p
        | none =>
            if !m.state.permits strict then .elsewhere name
            else if m.state.retryCount != 0 && !m.session.success then .broken
            else .run

def countChain (m : Machine) : Machine :=
  m.mapState fun s => { s with retryCount := s.retryCount + 1 }

end Machine

namespace Engine

variable (e : Engine)

def openChain (m : Machine) : Machine :=
  let m := m.countChain
  let n := m.state.retryCount
  e.transcribe ("Try #" ++ Text.numeralOf n) ((m.setSuccess true).note (.tryStarted n))

/-- Ends the block at a retry chain that is not needed. -/
def closeChains (m : Machine) : Machine :=
  let m := m.countChain
  m.note (.chainNotNeeded m.state.retryCount)

/-- Runs the commands of a block one after the other, `call` being what runs called options. -/
def runBlock (call : Block → Machine → Machine) : Block → Machine → Machine
  | [], m => m
  | command :: rest, m =>
      match m.verdict e.config.strictSections command with
      | .blank | .broken => runBlock call rest m
      | .chain => runBlock call rest (e.openChain m)
      | .finished => closeChains m
      | .platform named =>
          runBlock call rest (m.mapState (·.enterSection named e.host.platform))
      | .elsewhere name => runBlock call rest (m.note (.otherPlatform name))
      | .run => runBlock call rest (e.execute call command m)

/-- Interprets a block in which calls may be nested `budget` more times. The success flag starts
out set. -/
def interpretWithin : Nat → Block → Machine → Machine
  | 0, block, m => e.runBlock (fun _ m => m) block (m.setSuccess true)
  | budget + 1, block, m => e.runBlock (interpretWithin budget) block (m.setSuccess true)

/-- Interprets a block. At the depth where a call is refused no more nesting is needed. -/
def interpret (block : Block) (m : Machine) : Machine :=
  e.interpretWithin (maxExecDepth - m.session.depth) block m

/-- Runs a block on its own, and not for another run. -/
def run (block : Block) (m : Machine) : Machine :=
  e.interpret block { m with session := { m.session with refresh := false } }

end Engine

end PackageScript
