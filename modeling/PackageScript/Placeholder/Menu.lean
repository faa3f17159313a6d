import PackageScript.Path.ScriptPath
import PackageScript.Placeholder.Resolve

set_option autoImplicit false

/-! # Commands for the entries of a menu

A menu that is made from files or from a list has one block of commands, which is filled in for
each entry. Placeholders for the entry itself are replaced by its path, its name and the name of
its folder. Placeholders that read from a source declared in the block are looked up, with `*`
in them standing for the position of the entry. Those that cannot be replaced stay.
-/

namespace PackageScript.Placeholder

/-- An entry of a menu: its path or text, and its position. -/
structure MenuEntry where
  path : String
  index : Nat

namespace MenuEntry

def fill (e : MenuEntry) (text : String) : String :=
  Text.replaceAll "\x7bfolder_name\x7d" (ScriptPath.folderName e.path)
    (Text.replaceAll "\x7bfile_name\x7d" (ScriptPath.fileName e.path)
      (Text.replaceAll "\x7bfile_source\x7d" e.path text))

/-- A payload with the position of the entry in place of each `*`. -/
def payload (e : MenuEntry) (text : String) : String :=
  Text.replaceAll "*" (Text.numeralOf e.index) text

end MenuEntry

/-- The sources that a menu can declare, in the order in which they are replaced. -/
def menuSources : List Source := [.list, .json, .jsonFile]

/-- The opening of the placeholders that read from a source declared in a menu. -/
def menuOpening : Source → String
  | .list => "\x7blist_source("
  | .json => "\x7bjson_source("
  | .jsonFile => "\x7bjson_file_source("
  | s => s.opening

/-- The source that a command of a menu declares, with its value. -/
def declaration? : Command → Option (Source × String)
  | "list_source" :: value :: _ => some (.list, Text.unquote value)
  | "json_source" :: value :: _ => some (.json, value)
  | "json_file_source" :: value :: _ => some (.jsonFile, Text.unquote value)
  | _ => none

/-- The sources that are declared once a command has been read. -/
def declare (bindings : Bindings) (command : Command) : Bindings :=
  match declaration? command with
  | some (source, value) => bindings.bind source value
  | none => bindings

namespace Context

variable (c : Context)

/-- Replaces the placeholders that read from one declared source, and tells what was told. -/
def menuSource (e : MenuEntry) (bindings : Bindings) (text : String × List Notice)
    (source : Source) : String × List Notice :=
  match bindings.get source with
  | none => text
  | some bound =>
      let s := Splice.run (menuOpening source).toList
        (fun payload => c.lookup source bound (e.payload payload)) text.1.toList
      let trails := s.payloads.map fun payload => c.trailOf source bound (e.payload payload)
      (String.ofList s.text, text.2 ++ (Trail.ofList trails).notices ++ s.fault.toList)

def menuToken (e : MenuEntry) (bindings : Bindings) (token : String) : String × List Notice :=
  menuSources.foldl (c.menuSource e bindings) (e.fill token, [])

/-- A block of commands, filled in for an entry. A declaration counts from its own command on,
and the first one of a source stays. -/
def menuBlock (e : MenuEntry) (bindings : Bindings) : Block → Block × List Notice
  | [] => ([], [])
  | command :: rest =>
      let bindings := declare bindings command
      let tokens := command.map (c.menuToken e bindings)
      let (block, notices) := menuBlock e bindings rest
      (tokens.map Prod.fst :: block, tokens.flatMap Prod.snd ++ notices)

/-- The commands of a menu for one of its entries. -/
def expandMenu (e : MenuEntry) (block : Block) : Block × List Notice :=
  c.menuBlock e .empty block

end Context

end PackageScript.Placeholder
