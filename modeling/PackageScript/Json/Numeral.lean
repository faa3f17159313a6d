import PackageScript.Json.Basic

set_option autoImplicit false

/-! # Numbers of a JSON document

A number is read character by character. Its digits are kept as long as they fit into 64 bits
together. Digits of the integer part that no longer fit are counted, those of the fraction are
dropped.
-/

namespace PackageScript.Json

/-- What the last character of a number was. -/
inductive NumeralPhase where
  /-- A minus sign. -/
  | sign
  /-- A zero that starts the number. -/
  | zero
  /-- A digit of the integer part. -/
  | whole
  /-- The decimal point. -/
  | point
  /-- A digit of the fraction. -/
  | fraction
  /-- The mark of an exponent. -/
  | mark
  /-- The sign of an exponent. -/
  | markSign
  /-- A digit of the exponent. -/
  | power
deriving DecidableEq

/-- A number of which a part is read. Its value so far is `digits · 10 ^ shift`, times the power
of ten that the exponent names. -/
structure Numeral where
  phase : NumeralPhase
  negative : Bool
  digits : Nat
  shift : Int
  /-- Whether a digit of the current part did not fit. -/
  full : Bool
  powerNegative : Bool
  power : Nat
  /-- Whether the number is written as an integer and all its digits fit. -/
  integral : Bool

namespace Numeral

def digitValue (c : Char) : Nat := c.toNat - '0'.toNat

/-- The number that starts with a character. -/
def start? (c : Char) : Option Numeral :=
  if c = '-' then some ⟨.sign, true, 0, 0, false, false, 0, true⟩
  else if c = '0' then some ⟨.zero, false, 0, 0, false, false, 0, true⟩
  else if c.isDigit then some ⟨.whole, false, digitValue c, 0, false, false, 0, true⟩
  else none

def fits (n : Numeral) (c : Char) : Bool :=
  !n.full && decide (n.digits * 10 + digitValue c < Text.wordLimit)

def pushWhole (n : Numeral) (c : Char) : Numeral :=
  if n.fits c then { n with phase := .whole, digits := n.digits * 10 + digitValue c }
  else { n with phase := .whole, shift := n.shift + 1, full := true, integral := false }

def pushFraction (n : Numeral) (c : Char) : Numeral :=
  if n.fits c then
    { n with phase := .fraction, digits := n.digits * 10 + digitValue c, shift := n.shift - 1 }
  else { n with phase := .fraction, full := true }

def pushPower (n : Numeral) (c : Char) : Numeral :=
  { n with phase := .power, power := n.power * 10 + digitValue c }

def pushPoint (n : Numeral) : Numeral :=
  { n with phase := .point, full := false, integral := false }

def pushMark (n : Numeral) : Numeral := { n with phase := .mark, integral := false }

/-- What one more character makes of a number: `none` if it cannot stand there, and
`some none` if the number ends in front of it. -/
def push (n : Numeral) (c : Char) : Option (Option Numeral) :=
  match n.phase with
  | .sign =>
      if c = '0' then some (some { n with phase := .zero })
      else if c.isDigit then some (some (n.pushWhole c)) else none
  | .zero =>
      if c = '.' then some (some n.pushPoint)
      else if c = 'e' ∨ c = 'E' then some (some n.pushMark)
      else if c.isDigit then none else some none
  | .whole =>
      if c.isDigit then some (some (n.pushWhole c))
      else if c = '.' then some (some n.pushPoint)
      else if c = 'e' ∨ c = 'E' then some (some n.pushMark) else some none
  | .point => if c.isDigit then some (some (n.pushFraction c)) else none
  | .fraction =>
      if c.isDigit then some (some (n.pushFraction c))
      else if c = 'e' ∨ c = 'E' then some (some n.pushMark) else some none
  | .mark =>
      if c = '+' then some (some { n with phase := .markSign })
      else if c = '-' then some (some { n with phase := .markSign, powerNegative := true })
      else if c.isDigit then some (some (n.pushPower c)) else none
  | .markSign => if c.isDigit then some (some (n.pushPower c)) else none
  | .power => if c.isDigit then some (some (n.pushPower c)) else some none

/-- Whether a number may end here. -/
def isWhole (n : Numeral) : Bool :=
  match n.phase with
  | .zero | .whole | .fraction | .power => true
  | _ => false

/-- The power of ten of the last digit that was kept. -/
def exponent (n : Numeral) : Int :=
  if n.powerNegative then n.shift - n.power else n.shift + n.power

/-- The value of a number that ends here. A negative integer has 64 bits with its sign, and
minus zero is no integer. -/
def value? (n : Numeral) : Option JsonNumber :=
  if !n.isWhole then none
  else if n.integral ∧ n.negative = false then some (.integer n.digits)
  else if n.integral ∧ n.digits ≠ 0 ∧ n.digits ≤ Text.wordLimit / 2 then
    some (.integer (-(n.digits : Int)))
  else (Decimal.Binary64.ofDecimal n.digits n.exponent).map (.real n.negative)

end Numeral

end PackageScript.Json
