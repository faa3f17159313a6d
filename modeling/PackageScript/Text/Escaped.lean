import PackageScript.Text.Unprintable

set_option autoImplicit false

/-! # Escaped text

Messages show a text between double quotes. Quotes and backslashes inside are escaped, the
usual control characters have short names, and any other character without a shape is written
by its number.
-/

namespace PackageScript.Text

def hexDigits (n : Nat) : List Char := Nat.toDigits 16 n

/-- How one character is shown between double quotes. -/
def escapedChar (c : Char) : List Char :=
  match c with
  | '\x00' => ['\\', '0']
  | '\t' => ['\\', 't']
  | '\n' => ['\\', 'n']
  | '\r' => ['\\', 'r']
  | '"' => ['\\', '"']
  | '\\' => ['\\', '\\']
  | c => if isUnprintable c then ['\\', 'u', '\x7b'] ++ hexDigits c.toNat ++ ['\x7d'] else [c]

/-- A string as messages show it: escaped, between double quotes. -/
def escaped (s : String) : String :=
  String.ofList ('"' :: (s.toList.flatMap escapedChar ++ ['"']))

def escapedList (xs : List String) : String :=
  "[" ++ ", ".intercalate (xs.map escaped) ++ "]"

end PackageScript.Text
