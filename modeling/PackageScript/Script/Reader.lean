import PackageScript.Script.Tokens

set_option autoImplicit false

/-! # Reading a script

Every line is trimmed. Blank lines and lines that start with `#` are skipped. A line between
square brackets is a header that opens an option, and any other line is a command of the
option above it. Commands above the first header belong to no option and are dropped.
-/

namespace PackageScript.Script

/-- A line that carries something. -/
inductive Line where
  | header (name : String)
  | command (text : String)
deriving DecidableEq

/-- The line that a raw line of text stands for, `none` for a blank line or a comment. -/
def Line.ofText? (raw : List Char) : Option Line :=
  match Text.trimmed raw with
  | [] => none
  | '#' :: _ => none
  | '[' :: rest =>
      if rest.getLast? = some ']' then some (.header (String.ofList rest.dropLast))
      else some (.command (String.ofList ('[' :: rest)))
  | line => some (.command (String.ofList line))

/-- The lines of a text that carry something. -/
def linesOf (text : String) : List Line :=
  (Text.pieces (· == '\n') text.toList).filterMap Line.ofText?

/-- Puts one line in front of what the lines below it were read as: the command lines that
stand above every header, and the options. -/
def addLine : Line → List String × Script → List String × Script
  | .header name, (pending, options) => ([], ⟨name, pending.map tokenize⟩ :: options)
  | .command text, (pending, options) => (text :: pending, options)

/-- The command lines above the first header, and the options. -/
def sections (lines : List Line) : List String × Script :=
  lines.foldr addLine ([], [])

def ofText (text : String) : Script := (sections (linesOf text)).2

/-- The command lines of a script text that belong to no option. -/
def preamble (text : String) : List String := (sections (linesOf text)).1

end PackageScript.Script
