import PackageScript.ScriptError
import PackageScript.Text.Blank
import PackageScript.Text.Numeral
import PackageScript.Text.Quoted

set_option autoImplicit false

/-! # Values as hexadecimal digits

Patches are handed over as upper-case hexadecimal digits. A value is given as such digits, as a
text whose UTF-8 bytes are meant, or as a decimal number of at most 64 bits, whose bytes stand
in either order without zeros in front of the highest one.
-/

namespace PackageScript

/-- How the value of a patch is given. -/
inductive HexForm where
  /-- As hexadecimal digits. -/
  | digits
  /-- As a text. -/
  | text
  /-- As a decimal number, the highest byte first. -/
  | decimal
  /-- As a decimal number, the lowest byte first. -/
  | reversed
deriving DecidableEq

namespace HexForm

def hexDigit (n : Nat) : Char := (Nat.digitChar n).toUpper

def hexOfByte (b : UInt8) : List Char := [hexDigit (b.toNat / 16), hexDigit (b.toNat % 16)]

def hexOfBytes (bytes : List UInt8) : String := String.ofList (bytes.flatMap hexOfByte)

/-- The last `count` bytes of a number, the lowest first. -/
def lowBytes : Nat → Nat → List UInt8
  | 0, _ => []
  | count + 1, n => UInt8.ofNat n :: lowBytes count (n / 256)

/-- Bytes without the zeros in front, but at least one byte of them. -/
def withoutZeros : List UInt8 → List UInt8
  | [] => []
  | [b] => [b]
  | b :: c :: rest => if b = 0 then withoutZeros (c :: rest) else b :: c :: rest

def bytesOfWord (n : Nat) : List UInt8 := withoutZeros (lowBytes 8 n).reverse

/-- The bytes of a decimal number, the highest first. -/
def decimalBytes (text : String) : Except ScriptError (List UInt8) :=
  match Text.wordOf? (Text.trim text) with
  | some n => .ok (bytesOfWord n)
  | none => .error (.notDecimal text)

/-- The digits of a decimal number, the highest byte first. -/
def ofDecimal (text : String) : Except ScriptError String := (decimalBytes text).map hexOfBytes

/-- The digits of a decimal number, the lowest byte first. -/
def ofReversedDecimal (text : String) : Except ScriptError String :=
  (decimalBytes text).map fun bytes => hexOfBytes bytes.reverse

def ofText (text : String) : String := hexOfBytes text.toUTF8.toList

/-- The digits of a value that is given in some form, between quotes or without. -/
def encode (form : HexForm) (arg : String) : Except ScriptError String :=
  let value := Text.unquote arg
  match form with
  | .digits => .ok value
  | .text => .ok (ofText value)
  | .decimal => ofDecimal value
  | .reversed => ofReversedDecimal value

/-- Digits with zero bytes behind them, one after the other until they are as many as given. -/
def padTo (size : Nat) (digits : String) : String :=
  if digits.length < size then padTo size (digits ++ "00") else digits
termination_by size - digits.length
decreasing_by
  have hmore : "00".length = 2 := rfl
  rw [String.length_append]
  omega

/-- Two values of a replacement. Of two texts the shorter one is brought to the length of the other,
so that a replacement never changes the size of a file. -/
def pad (form : HexForm) (find replace : String) : String × String :=
  match form with
  | .text =>
      let replace := padTo find.length replace
      (padTo replace.length find, replace)
  | _ => (find, replace)

end HexForm

end PackageScript
