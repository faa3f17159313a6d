import PackageScript.Script.Basic

set_option autoImplicit false

/-! # Writing a script

The written form of a script: a header line for each option and a line for each command, with
every token between single quotes. Also the two-option text that a missing script starts with.
-/

namespace PackageScript.Script

/-- One command as a line: quoted tokens with a blank between them. A command without tokens
is an empty quoted span. -/
def printCommand (command : Command) : String :=
  if command.isEmpty then "''" else " ".intercalate (command.map fun t => "'" ++ t ++ "'")

/-- One option: the header line, then a line for each command. -/
def printOption (option : ScriptOption) : String :=
  "[" ++ option.name ++ "]\n" ++ String.join (option.commands.map fun c => printCommand c ++ "\n")

def print (script : Script) : String := String.join (script.map printOption)

/-- The text of a script that offers a reboot and a shutdown under the two given names. -/
def skeleton (names : String × String) : String :=
  "[" ++ names.1 ++ "]\nreboot\n[" ++ names.2 ++ "]\nshutdown\n"

end PackageScript.Script
