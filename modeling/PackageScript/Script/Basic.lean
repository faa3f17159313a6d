set_option autoImplicit false

/-! # Package scripts

A package script is a list of named options. Each option has a body of commands, and a
command is a list of tokens whose first is its name.
-/

namespace PackageScript

/-- The tokens of one command line: the name and its arguments. A line may have no token. -/
abbrev Command := List String

/-- Commands in the order in which they run. -/
abbrev Block := List Command

/-- A named option of a script and the commands that it runs. -/
structure ScriptOption where
  name : String
  commands : Block
deriving DecidableEq, Inhabited

/-- A script is its options in file order. Names may repeat. -/
abbrev Script := List ScriptOption

namespace Script

def option? (script : Script) (name : String) : Option ScriptOption :=
  script.find? fun o => o.name == name

end Script

end PackageScript
