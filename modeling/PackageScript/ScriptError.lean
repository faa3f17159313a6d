import PackageScript.Files.Error
import PackageScript.Text.Escaped

set_option autoImplicit false

/-! # Why a command fails

A failure has a cause and, once it reaches the interpreter, the command and the arguments that
met it. No failure crosses a command boundary: the interpreter notes it and goes on.
-/

namespace PackageScript

/-- The causes of a failure. -/
inductive Cause where
  /-- Too few arguments for a command. -/
  | usage (command expected : String)
  /-- The guard refused a path. -/
  | refused (path : String)
  /-- Something that was named does not exist. -/
  | notFound (what : String)
  /-- A file operation failed for another reason. -/
  | files (what : String)
  /-- A script or an argument is malformed. -/
  | malformed (what : String)
  /-- A collaborator reported failure. -/
  | collaborator (what : String)
deriving DecidableEq

def Cause.message : Cause → String
  | .usage command expected => "usage: " ++ command ++ " " ++ expected
  | .refused path => "refusing to touch protected path " ++ path
  | .notFound what | .files what | .malformed what | .collaborator what => what

/-- A failure: its cause, the command and the arguments, where they are known. -/
structure ScriptError where
  cause : Cause
  command : Option String
  args : List String
deriving DecidableEq

namespace ScriptError

def of (cause : Cause) : ScriptError := ⟨cause, none, []⟩

def ofFileError (e : FileError) : ScriptError :=
  of (if e = .notFound then .notFound e.message else .files e.message)

/-- A collaborator failed at something that concerns a file. -/
def failedFor (what file : String) : ScriptError :=
  of (.collaborator (what ++ " failed for " ++ file))

def notDecimal (text : String) : ScriptError :=
  of (.malformed ("not a decimal number: " ++ Text.escaped text))

def badOccurrence (text : String) : ScriptError :=
  of (.malformed ("bad occurrence " ++ Text.escaped text))

def noOption (name script : String) : ScriptError :=
  of (.notFound ("no option [" ++ name ++ "] in " ++ script))

def doesNotExist (path : String) : ScriptError := of (.notFound (path ++ " does not exist"))

/-- An argument as failures show it: in single quotes if it is empty or has a space or tab. -/
def shownArg (arg : String) : String :=
  if arg.isEmpty || arg.toList.contains ' ' || arg.toList.contains '\t' then
    "'" ++ arg ++ "'"
  else arg

/-- The wording of a failure: the command and its arguments, if known, then the cause. -/
def message (e : ScriptError) : String :=
  match e.command with
  | none => e.cause.message
  | some command =>
      if e.args.isEmpty then command ++ ": " ++ e.cause.message
      else command ++ " " ++ " ".intercalate (e.args.map shownArg) ++ ": " ++ e.cause.message

end ScriptError

end PackageScript
