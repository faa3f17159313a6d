import PackageScript.Text.Blank
import PackageScript.Text.Numeral
import PackageScript.Text.Quoted

set_option autoImplicit false

/-! # Items of a list

A list is written on one line or on several, its items between commas or line ends, with round
or square brackets around it or none. Items are trimmed and lose one layer of quotes. Items that
are empty then do not count.
-/

namespace PackageScript.Placeholder

/-- A text without one pair of brackets around it. -/
def unwrapped (s : List Char) : List Char :=
  match s with
  | '(' :: rest => if rest.getLast? = some ')' then rest.dropLast else s
  | '[' :: rest => if rest.getLast? = some ']' then rest.dropLast else s
  | _ => s

/-- Whether a character separates items. -/
def isItemEnd (c : Char) : Bool := c == ',' || c == '\n'

def itemsOf (s : List Char) : List (List Char) :=
  ((Text.pieces isItemEnd (unwrapped (Text.trimmed s))).map fun piece =>
    Text.unquoted (Text.trimmed piece)).filter fun item => !item.isEmpty

def listItems (list : String) : List String := (itemsOf list.toList).map String.ofList

/-- The item of a list at the position that a text names. -/
def listItem? (list index : String) : Option String :=
  (Text.wordOf? (Text.trim index)).bind fun i => (listItems list)[i]?

/-- The components of what stands inside a placeholder: between commas, trimmed, and without
one layer of quotes. -/
def components (payload : String) : List String :=
  (Text.splitAt ',' payload).map fun c => Text.unquote (Text.trim c)

end PackageScript.Placeholder
