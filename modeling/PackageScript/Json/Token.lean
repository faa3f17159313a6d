import PackageScript.Json.Numeral

set_option autoImplicit false

/-! # Tokens of a JSON document

The tokens are read in one pass. After each character the reader knows what it is inside of, and
that one character either extends it or ends it.
-/

namespace PackageScript.Json

/-- A token. Values without parts are single tokens. -/
inductive Token where
  | openArray
  | closeArray
  | openObject
  | closeObject
  | comma
  | colon
  | value (v : Json)

namespace Token

/-- What the reader is inside of. Characters of a string are kept in reverse. -/
inductive Scan where
  /-- Between tokens. -/
  | between
  /-- In a word with the given remaining characters. -/
  | word (rest : List Char) (value : Json)
  /-- In a number. -/
  | numeral (n : Numeral)
  /-- In a string. -/
  | text (sofar : List Char)
  /-- After a backslash in a string. -/
  | escape (sofar : List Char)
  /-- In the four digits of a code unit: the first half of a pair if there is one, the number
  of digits that are missing, and the value of those read. -/
  | unit (sofar : List Char) (high : Option Nat) (missing before : Nat)
  /-- After the first half of a pair: the backslash of the second half has to follow, or, if
  `slash`, has been read. -/
  | half (sofar : List Char) (high : Nat) (slash : Bool)

def ofChar? : Char → Option Token
  | '[' => some .openArray
  | ']' => some .closeArray
  | '\x7b' => some .openObject
  | '\x7d' => some .closeObject
  | ',' => some .comma
  | ':' => some .colon
  | _ => none

/-- Whether a character may stand between tokens. -/
def isSpace (c : Char) : Bool := c == ' ' || c == '\t' || c == '\n' || c == '\r'

/-- What a character between tokens starts, and the token that it is. -/
def start? (c : Char) : Option (Scan × List Token) :=
  if isSpace c then some (.between, [])
  else
    match ofChar? c with
    | some t => some (.between, [t])
    | none =>
        match c with
        | '"' => some (.text [], [])
        | 't' => some (.word ['r', 'u', 'e'] (.bool true), [])
        | 'f' => some (.word ['a', 'l', 's', 'e'] (.bool false), [])
        | 'n' => some (.word ['u', 'l', 'l'] .null, [])
        | c => (Numeral.start? c).map fun n => (.numeral n, [])

/-- The character that a letter after a backslash stands for. -/
def unescaped? : Char → Option Char
  | '"' => some '"'
  | '\\' => some '\\'
  | '/' => some '/'
  | 'b' => some '\x08'
  | 'f' => some '\x0c'
  | 'n' => some '\n'
  | 'r' => some '\r'
  | 't' => some '\t'
  | _ => none

def unitDigit? (c : Char) : Option Nat :=
  if c.isDigit then some (c.toNat - '0'.toNat)
  else if 'a' ≤ c ∧ c ≤ 'f' then some (c.toNat - 'a'.toNat + 10)
  else if 'A' ≤ c ∧ c ≤ 'F' then some (c.toNat - 'A'.toNat + 10)
  else none

/-- What a complete code unit makes of a string. Halves of a pair occur in pairs only. -/
def endUnit? (sofar : List Char) (high : Option Nat) (n : Nat) : Option Scan :=
  let isLow := 0xDC00 ≤ n ∧ n < 0xE000
  match high with
  | some h =>
      if isLow then
        some (.text (Char.ofNat (0x10000 + (h - 0xD800) * 0x400 + (n - 0xDC00)) :: sofar))
      else none
  | none =>
      if isLow then none
      else if 0xD800 ≤ n ∧ n < 0xDC00 then some (.half sofar n false)
      else some (.text (Char.ofNat n :: sofar))

def step : Scan → Char → Option (Scan × List Token)
  | .between, c => start? c
  | .word [] v, c => (start? c).map fun (s, ts) => (s, .value v :: ts)
  | .word [x] v, c => if c = x then some (.between, [.value v]) else none
  | .word (x :: rest) v, c => if c = x then some (.word rest v, []) else none
  | .numeral n, c =>
      match n.push c with
      | none => none
      | some (some n) => some (.numeral n, [])
      | some none => do
          let v ← n.value?
          let (s, ts) ← start? c
          some (s, .value (.number v) :: ts)
  | .text sofar, c =>
      if c = '"' then some (.between, [.value (.string (String.ofList sofar.reverse))])
      else if c = '\\' then some (.escape sofar, [])
      else if c.toNat < 0x20 then none
      else some (.text (c :: sofar), [])
  | .escape sofar, c =>
      if c = 'u' then some (.unit sofar none 4 0, [])
      else (unescaped? c).map fun x => (.text (x :: sofar), [])
  | .unit sofar high missing before, c => do
      let d ← unitDigit? c
      let now := before * 16 + d
      if missing ≤ 1 then (endUnit? sofar high now).map fun s => (s, [])
      else some (.unit sofar high (missing - 1) now, [])
  | .half sofar high slash, c =>
      if slash then if c = 'u' then some (.unit sofar (some high) 4 0, []) else none
      else if c = '\\' then some (.half sofar high true, []) else none

/-- The token that the end of the document completes. -/
def finish? : Scan → Option (List Token)
  | .between => some []
  | .numeral n => n.value?.map fun v => [.value (.number v)]
  | _ => none

/-- The tokens of a document whose reader is already inside of something. -/
def ofCharsFrom? : Scan → List Char → Option (List Token)
  | s, [] => finish? s
  | s, c :: cs => do
      let (s, ts) ← step s c
      let rest ← ofCharsFrom? s cs
      some (ts ++ rest)

def ofText? (text : String) : Option (List Token) := ofCharsFrom? .between text.toList

end Token

end PackageScript.Json
