set_option autoImplicit false

/-! # Binary floating point of 64 bits

A finite magnitude is a mantissa below `2 ^ 53` times a power of two that is at least
`2 ^ (-1074)`. Every operation computes the exact quotient of two natural numbers and rounds it
once, to the nearest magnitude and halfway cases to the even mantissa. A quotient beyond the
largest magnitude has no result. Signs are kept apart from magnitudes.
-/

namespace PackageScript.Decimal

/-- The magnitude `mantissa · 2 ^ exponent`. -/
structure Binary64 where
  mantissa : Nat
  exponent : Int
deriving DecidableEq, Inhabited

/-- The quotient of two numbers, rounded to the nearest integer and halves to the even one. -/
def divToEven (n d : Nat) : Nat :=
  let q := n / d
  let r := n % d
  if 2 * r < d then q
  else if d < 2 * r then q + 1
  else if q % 2 = 0 then q else q + 1

/-- Numerator and denominator of a quotient divided by a power of two. -/
def overPowerOfTwo (n d : Nat) (e : Int) : Nat × Nat :=
  if 0 ≤ e then (n, d * Nat.pow 2 e.toNat) else (n * Nat.pow 2 (-e).toNat, d)

namespace Binary64

def minExponent : Int := -1074

def maxExponent : Int := 971

/-- A full mantissa has 53 bits. -/
def mantissaLimit : Nat := 9007199254740992

def zero : Binary64 := ⟨0, minExponent⟩

/-- The exponent under which a quotient of positive numbers has a full mantissa, or the
smallest exponent if that is larger. -/
def exponentFor (n d : Nat) : Int :=
  let e : Int := n.log2 - d.log2 - 53
  let (a, b) := overPowerOfTwo n d e
  max minExponent (if a < b * mantissaLimit then e else e + 1)

/-- The magnitude nearest to a quotient. -/
def ofQuotient (n d : Nat) : Option Binary64 :=
  if n = 0 then some zero
  else
    let e := exponentFor n d
    let (a, b) := overPowerOfTwo n d e
    let m := divToEven a b
    let x : Binary64 := if m = mantissaLimit then ⟨m / 2, e + 1⟩ else ⟨m, e⟩
    if x.exponent > maxExponent then none else some x

/-- Numerator and denominator of a magnitude. -/
def quotient (x : Binary64) : Nat × Nat :=
  if 0 ≤ x.exponent then (x.mantissa * Nat.pow 2 x.exponent.toNat, 1)
  else (x.mantissa, Nat.pow 2 (-x.exponent).toNat)

def mul (x y : Binary64) : Option Binary64 :=
  ofQuotient (x.quotient.1 * y.quotient.1) (x.quotient.2 * y.quotient.2)

def div (x y : Binary64) : Option Binary64 :=
  ofQuotient (x.quotient.1 * y.quotient.2) (x.quotient.2 * y.quotient.1)

def ofNat (n : Nat) : Option Binary64 := ofQuotient n 1

def powerOfTen (k : Nat) : Option Binary64 := ofNat (Nat.pow 10 k)

def maxPowerOfTen : Nat := 308

/-- A magnitude divided by a power of ten. A power beyond the largest one is divided by step by
step, which ends early at zero. -/
def divPowerOfTen (x : Binary64) (k : Nat) : Option Binary64 :=
  if k ≤ maxPowerOfTen then do x.div (← powerOfTen k)
  else if x.mantissa = 0 then some x
  else do
    let y ← x.div (← powerOfTen maxPowerOfTen)
    divPowerOfTen y (k - maxPowerOfTen)
termination_by k
decreasing_by simp_all [maxPowerOfTen]; omega

def mulPowerOfTen (x : Binary64) (k : Nat) : Option Binary64 :=
  if k ≤ maxPowerOfTen then do x.mul (← powerOfTen k)
  else if x.mantissa = 0 then some x
  else none

/-- The magnitude for a decimal number: the digits are rounded first, and then once more after
they are multiplied or divided by the power of ten. -/
def ofDecimal (digits : Nat) (exponent : Int) : Option Binary64 := do
  let x ← ofNat digits
  if 0 ≤ exponent then x.mulPowerOfTen exponent.toNat else x.divPowerOfTen (-exponent).toNat

end Binary64

end PackageScript.Decimal
