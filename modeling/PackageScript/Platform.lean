import PackageScript.Text.Escaped

set_option autoImplicit false

/-! # Platforms

The two hardware revisions of the console, their names, and the section markers made of them.
Names are compared without regard to the case of ASCII letters.
-/

namespace PackageScript

/-- The hardware revision of a console. -/
inductive Platform where
  | erista
  | mariko
deriving DecidableEq, Inhabited

namespace Platform

def name : Platform → String
  | .erista => "erista"
  | .mariko => "mariko"

def ofLower? (s : String) : Option Platform :=
  if s = "erista" then some .erista else if s = "mariko" then some .mariko else none

/-- A string with its ASCII letters in lower case. -/
def lower (s : String) : String := s.map Char.toLower

def ofName? (s : String) : Option Platform := ofLower? (lower s)

/-- What is said of a name that stands for no platform. -/
def unknownMessage (s : String) : String := "unknown platform " ++ Text.escaped (lower s)

/-- The platform of a section marker: its name and a colon. -/
def ofMarker? (token : String) : Option Platform :=
  match token.toList.reverse with
  | ':' :: rest => ofName? (String.ofList rest.reverse)
  | _ => none

end Platform

end PackageScript
