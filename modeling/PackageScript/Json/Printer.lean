import PackageScript.Decimal.Shortest
import PackageScript.Json.Basic

set_option autoImplicit false

/-! # Writing a JSON document

Nothing is written between tokens. In strings only quotes, backslashes and control characters
are escaped.
-/

namespace PackageScript.Json

/-- Numbers are written positionally from `0.00001` up to sixteen digits before the point. -/
def numberLayout : Decimal.Layout := ⟨-5, 15⟩

def unitDigit (n : Nat) : Char := Nat.digitChar n

def writtenChar (c : Char) : List Char :=
  match c with
  | '"' => ['\\', '"']
  | '\\' => ['\\', '\\']
  | '\x08' => ['\\', 'b']
  | '\x0c' => ['\\', 'f']
  | '\n' => ['\\', 'n']
  | '\r' => ['\\', 'r']
  | '\t' => ['\\', 't']
  | c =>
      if c.toNat < 0x20 then
        ['\\', 'u', '0', '0', unitDigit (c.toNat / 16), unitDigit (c.toNat % 16)]
      else [c]

def writtenString (s : String) : String :=
  String.ofList ('"' :: (s.toList.flatMap writtenChar ++ ['"']))

def writtenNumber : JsonNumber → String
  | .integer n => (if n < 0 then "-" else "") ++ Text.numeralOf n.natAbs
  | .real negative x => (if negative then "-" else "") ++ x.shortest.text numberLayout

mutual

def written : Json → String
  | .null => "null"
  | .bool b => if b then "true" else "false"
  | .number n => writtenNumber n
  | .string s => writtenString s
  | .array items => "[" ++ ",".intercalate (writtenItems items) ++ "]"
  | .object members => "\x7b" ++ ",".intercalate (writtenMembers members) ++ "\x7d"

def writtenItems : List Json → List String
  | [] => []
  | v :: rest => written v :: writtenItems rest

def writtenMembers : List (String × Json) → List String
  | [] => []
  | (key, v) :: rest => (writtenString key ++ ":" ++ written v) :: writtenMembers rest

end

/-- What a lookup answers with: a string as it is, nothing for `null`, and the text of any other
value. -/
def answer? : Json → Option String
  | .null => none
  | .string s => some s
  | v => some (written v)

end PackageScript.Json
