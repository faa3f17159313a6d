import PackageScript.Platform
import PackageScript.Text.Search

set_option autoImplicit false

/-! # Arguments of the command line

Options have long names and some have letters. A value follows its option as the next argument,
after `=`, or right behind the letter, and letters can be put together. After `--` every
argument is plain. The value of an option is only looked at when the next thing that is
understood comes, so an argument that is not understood is reported first.
-/

namespace PackageScript.Cli

/-- The options without a value. -/
inductive Switch where
  | strictPlatform
  | list
  | listCommands
  | verbose
  | help
  | version
deriving DecidableEq

/-- The options with a value. -/
inductive ValueOption where
  | root
  | platform
deriving DecidableEq

/-- What an option is called on the command line. -/
inductive Flag where
  | switch (s : Switch)
  | valued (s : ValueOption)

def Switch.name : Switch → String
  | .strictPlatform => "--strict-platform"
  | .list => "--list"
  | .listCommands => "--list-commands"
  | .verbose => "--verbose"
  | .help => "--help"
  | .version => "--version"

/-- The long name of an option with a value, and what stands for the value. -/
def ValueOption.name : ValueOption → String
  | .root => "--root <ROOT>"
  | .platform => "--platform <PLATFORM>"

def Flag.ofName? : String → Option Flag
  | "root" => some (.valued .root)
  | "platform" => some (.valued .platform)
  | "strict-platform" => some (.switch .strictPlatform)
  | "list" => some (.switch .list)
  | "list-commands" => some (.switch .listCommands)
  | "verbose" => some (.switch .verbose)
  | "help" => some (.switch .help)
  | "version" => some (.switch .version)
  | _ => none

def Flag.ofLetter? : Char → Option Flag
  | 'r' => some (.valued .root)
  | 'p' => some (.valued .platform)
  | 'l' => some (.switch .list)
  | 'v' => some (.switch .verbose)
  | 'h' => some (.switch .help)
  | 'V' => some (.switch .version)
  | _ => none

/-- Why the reading of arguments stops early. -/
inductive Stop where
  /-- The help text is asked for. -/
  | help
  /-- The version is asked for. -/
  | version
  /-- An argument is not understood. -/
  | unexpected (arg : String)
  /-- An option without a value has one. -/
  | unexpectedValue (switch : Switch) (value : String)
  /-- An option has no value. -/
  | noValue (option : ValueOption)
  /-- A value names no platform. -/
  | noPlatform (value : String)
  /-- An option is given twice. -/
  | repeated (name : String)
deriving DecidableEq

/-- What is said when the reading stops, other than for a text that was asked for. -/
def Stop.message : Stop → String
  | .help | .version => ""
  | .unexpected arg => "unexpected argument '" ++ arg ++ "' found"
  | .unexpectedValue s value =>
      "unexpected value '" ++ value ++ "' for '" ++ s.name ++ "' found; no more were expected"
  | .noValue s => "a value is required for '" ++ s.name ++ "' but none was supplied"
  | .noPlatform value =>
      "invalid value '" ++ value ++ "' for '" ++ ValueOption.platform.name ++ "': "
        ++ Platform.unknownMessage value
  | .repeated name => "the argument '" ++ name ++ "' cannot be used multiple times"

/-- What the command line says. -/
structure Arguments where
  script : Option String
  option : Option String
  root : Option String
  platform : Option Platform
  switches : List Switch
deriving DecidableEq

namespace Arguments

def nothing : Arguments := ⟨none, none, none, none, []⟩

def has (a : Arguments) (s : Switch) : Bool := a.switches.contains s

def setValue (a : Arguments) (value : String) : ValueOption → Except Stop Arguments
  | .root =>
      if a.root.isSome then .error (.repeated ValueOption.root.name)
      else if value.isEmpty then .error (.noValue .root)
      else .ok { a with root := some value }
  | .platform =>
      if a.platform.isSome then .error (.repeated ValueOption.platform.name)
      else
        match Platform.ofName? value with
        | some p => .ok { a with platform := some p }
        | none => .error (.noPlatform value)

def setSwitch (a : Arguments) : Switch → Except Stop Arguments
  | .help => .error .help
  | .version => .error .version
  | s => if a.has s then .error (.repeated s.name) else .ok { a with switches := s :: a.switches }

def setPlain (a : Arguments) (arg : String) : Except Stop Arguments :=
  if a.script.isNone then .ok { a with script := some arg }
  else if a.option.isNone then .ok { a with option := some arg }
  else .error (.unexpected arg)

end Arguments

/-- Arguments that are read in part. -/
structure Reading where
  arguments : Arguments
  /-- An option whose value has not been looked at, with the value if it has come. -/
  pending : Option (ValueOption × Option String)
  /-- Whether `--` has come. -/
  plainOnly : Bool

namespace Reading

/-- Looks at the value of the pending option. -/
def settle (r : Reading) : Except Stop Reading :=
  match r.pending with
  | none => .ok r
  | some (s, none) => .error (.noValue s)
  | some (s, some value) => do
      let a ← r.arguments.setValue value s
      .ok { r with arguments := a, pending := none }

def takeSwitch (r : Reading) (s : Switch) : Except Stop Reading := do
  let r ← r.settle
  let a ← r.arguments.setSwitch s
  .ok { r with arguments := a }

/-- An option with a value, which may be attached. -/
def takeValued (r : Reading) (s : ValueOption) (attached : Option String) :
    Except Stop Reading := do
  let r ← r.settle
  match attached with
  | none => .ok { r with pending := some (s, none) }
  | some value =>
      let a ← r.arguments.setValue value s
      .ok { r with arguments := a }

def takePlain (r : Reading) (arg : String) : Except Stop Reading :=
  if r.arguments.script.isSome && r.arguments.option.isSome then .error (.unexpected arg)
  else do
    let r ← r.settle
    let a ← r.arguments.setPlain arg
    .ok { r with arguments := a }

/-- An argument that is no option: the value of the pending option if that has none, and a plain
argument otherwise. -/
def takeText (r : Reading) (arg : String) : Except Stop Reading :=
  match r.pending with
  | some (s, none) => .ok { r with pending := some (s, some arg) }
  | _ => r.takePlain arg

/-- A long name, with the value behind `=`. -/
def takeLong (r : Reading) (name : String) (attached : Option String) : Except Stop Reading :=
  match Flag.ofName? name, attached with
  | some (.valued s), _ => r.takeValued s attached
  | some (.switch s), none => r.takeSwitch s
  | some (.switch s), some value => .error (.unexpectedValue s value)
  | none, _ => .error (.unexpected ("--" ++ name))

def attachedValue : List Char → Option String
  | [] => none
  | '=' :: rest => some (String.ofList rest)
  | rest => some (String.ofList rest)

def takeLetters (r : Reading) : List Char → Except Stop Reading
  | [] => .ok r
  | c :: rest =>
      match Flag.ofLetter? c with
      | some (.switch s) => do
          let r ← r.takeSwitch s
          takeLetters r rest
      | some (.valued s) => r.takeValued s (attachedValue rest)
      | none => .error (.unexpected (String.ofList ['-', c]))

/-- A long name and what stands behind the first `=`. -/
def splitLong (body : List Char) : String × Option String :=
  match Text.cutAt? ['='] body with
  | some (name, value) => (String.ofList name, some (String.ofList value))
  | none => (String.ofList body, none)

def take (r : Reading) (arg : String) : Except Stop Reading :=
  if r.plainOnly then r.takePlain arg
  else
    match arg.toList with
    | ['-', '-'] => .ok { r with plainOnly := true }
    | '-' :: '-' :: body => r.takeLong (splitLong body).1 (splitLong body).2
    | ['-'] => r.takeText arg
    | '-' :: letters => r.takeLetters letters
    | _ => r.takeText arg

end Reading

def Arguments.ofList (args : List String) : Except Stop Arguments := do
  let r ← args.foldlM Reading.take ⟨.nothing, none, false⟩
  let r ← r.settle
  .ok r.arguments

end PackageScript.Cli
