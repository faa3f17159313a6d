import PackageScript.Text.Search
import PackageScript.Text.Blank

set_option autoImplicit false

/-! # Paths as scripts write them

A script path is a text with `/` between its names, usually after a volume such as `sdmc:/`.
The file holds its last name, the name of the directory around it, its directory part, and
joining.
-/

namespace PackageScript.ScriptPath

def withoutEndSlashes (s : List Char) : List Char :=
  (s.reverse.dropWhile (· == '/')).reverse

/-- The characters after the last slash, all of them if there is none. -/
def afterLastSlash (s : List Char) : List Char :=
  (s.reverse.takeWhile (· != '/')).reverse

/-- The characters up to the last slash and without it, `none` if there is no slash. -/
def beforeLastSlash? (s : List Char) : Option (List Char) :=
  match s.reverse.dropWhile (· != '/') with
  | [] => none
  | _ :: rest => some rest.reverse

/-- The last name of a path, slashes at the end aside. -/
def fileName (path : String) : String :=
  String.ofList (afterLastSlash (withoutEndSlashes path.toList))

/-- The name of the directory that holds the last name of a path, empty if there is none. -/
def folderName (path : String) : String :=
  match beforeLastSlash? (withoutEndSlashes path.toList) with
  | some folder => fileName (String.ofList folder)
  | none => ""

/-- The part of a path up to its last slash, slash included, empty if there is none. -/
def directory (path : String) : String :=
  match beforeLastSlash? path.toList with
  | some folder => String.ofList (folder ++ ['/'])
  | none => ""

/-- A relative path below a script path. Backslashes in the relative path count as slashes. -/
def join (base relative : String) : String :=
  let relative := relative.map fun c => if c = '\\' then '/' else c
  if base.isEmpty || Text.endsWith base '/' then base ++ relative
  else base ++ "/" ++ relative

end PackageScript.ScriptPath
