import PackageScript.Decimal.Binary64
import PackageScript.Text.Numeral

set_option autoImplicit false

/-! # The shortest decimal that reads back

Every magnitude is the nearest one to all reals of an interval. Among the decimals in that
interval those with the fewest digits are taken, and among these the one nearest to the
magnitude. A magnitude lies between two neighbouring decimals of each number of digits, so only
these two are tried.
-/

namespace PackageScript.Decimal

/-- The number `digits · 10 ^ exponent`. -/
structure DecimalNumber where
  digits : Nat
  exponent : Int
deriving DecidableEq

namespace Binary64

/-- Whether the magnitudes below are twice as close as those above. -/
def isBoundary (x : Binary64) : Bool :=
  x.mantissa == mantissaLimit / 2 && x.exponent != minExponent

/-- The ends of the interval of reals that round to a magnitude, in quarters of its last bit. -/
def interval (x : Binary64) : Nat × Nat :=
  (4 * x.mantissa - (if x.isBoundary then 1 else 2), 4 * x.mantissa + 2)

/-- Numerator and denominator of `k` quarters of the last bit, divided by a power of ten. -/
def quarters (x : Binary64) (k : Nat) (e : Int) : Nat × Nat :=
  let (n, d) := quotient ⟨k, x.exponent⟩
  if 0 ≤ e then (n, 4 * d * Nat.pow 10 e.toNat) else (n * Nat.pow 10 (-e).toNat, 4 * d)

/-- Whether `digits · 10 ^ e` rounds to a magnitude. The ends of the interval do so if the
mantissa is even. -/
def readsBack (x : Binary64) (digits : Nat) (e : Int) : Bool :=
  let (low, lowDen) := x.quarters x.interval.1 e
  let (high, highDen) := x.quarters x.interval.2 e
  if x.mantissa % 2 = 0 then low ≤ digits * lowDen && digits * highDen ≤ high
  else low < digits * lowDen && digits * highDen < high

/-- The decimal with the given exponent that is nearest to a magnitude among its two neighbours
that read back. -/
def nearestOn (x : Binary64) (e : Int) : Option Nat :=
  let (n, d) := x.quarters (4 * x.mantissa) e
  let down := n / d
  let up := down + 1
  match x.readsBack down e, x.readsBack up e with
  | true, true => some (divToEven n d)
  | true, false => some down
  | false, true => some up
  | false, false => none

def numeralLength (n : Nat) : Nat := (Nat.toDigits 10 n).length

/-- The power of ten of the first digit of a positive magnitude. Below one it is the negated
length of the largest numeral that the reciprocal exceeds. -/
def leadingPower (x : Binary64) : Int :=
  let (n, d) := x.quotient
  if d ≤ n then (numeralLength (n / d) : Int) - 1 else Int.negOfNat (numeralLength ((d - 1) / n))

def dropZeros : Nat → DecimalNumber → DecimalNumber
  | 0, x => x
  | fuel + 1, x =>
      if x.digits ≠ 0 ∧ x.digits % 10 = 0 then dropZeros fuel ⟨x.digits / 10, x.exponent + 1⟩
      else x

/-- The first hit on the grids with the given numbers of digits. -/
def firstHit (x : Binary64) (power : Int) : List Nat → DecimalNumber
  | [] => ⟨0, 0⟩
  | places :: rest =>
      let e := power - places
      match x.nearestOn e with
      | some digits => dropZeros (digits + 1) ⟨digits, e⟩
      | none => firstHit x power rest

/-- The shortest decimal that reads back. Seventeen digits always do. -/
def shortest (x : Binary64) : DecimalNumber :=
  if x.mantissa = 0 then ⟨0, 0⟩ else firstHit x x.leadingPower (List.range 17)

end Binary64

/-- How decimal numbers are written: positionally from the power of ten `lowest` to `highest`
of the first digit, with an exponent otherwise. -/
structure Layout where
  lowest : Int
  highest : Int

/-- The text of digits with the point after the first `before` of them. -/
def withPoint (digits : List Char) (before : Nat) : List Char :=
  let after := digits.drop before
  digits.take before ++ '.' :: (if after.isEmpty then ['0'] else after)

/-- The text of a nonnegative decimal number. Positional texts always have a point with a digit
on both sides. An exponent has a sign, and its digits have a point only if there are two. -/
def DecimalNumber.text (layout : Layout) (x : DecimalNumber) : String :=
  let digits := Nat.toDigits 10 x.digits
  let power : Int := x.exponent + digits.length - 1
  if x.digits = 0 then "0.0"
  else if layout.lowest ≤ power ∧ power ≤ layout.highest then
    if power < 0 then
      String.ofList ("0.".toList ++ List.replicate ((-power).toNat - 1) '0' ++ digits)
    else
      let filled := digits ++ List.replicate (power.toNat + 1 - digits.length) '0'
      String.ofList (withPoint filled (power.toNat + 1))
  else
    let mantissa := if digits.length = 1 then digits else withPoint digits 1
    String.ofList mantissa ++ "e" ++ (if power < 0 then "-" else "+")
      ++ Text.numeralOf power.natAbs

end PackageScript.Decimal
