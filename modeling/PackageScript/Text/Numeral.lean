set_option autoImplicit false

/-! # Decimal numerals

An unsigned number is read from an optional `+` and one or more ASCII digits, with any number
of leading zeros. A number that does not fit below the given limit is refused.
-/

namespace PackageScript.Text

/-- Unsigned numbers have 64 bits. -/
def wordLimit : Nat := 18446744073709551616

/-- The digits of a numeral after its optional `+`. -/
def afterPlus : List Char → List Char
  | '+' :: rest => rest
  | s => s

/-- The number below `limit` that a numeral denotes. -/
def numeral? (limit : Nat) (s : List Char) : Option Nat :=
  let digits := afterPlus s
  if digits ≠ [] ∧ digits.all Char.isDigit = true then
    let n := Nat.ofDigitChars 10 digits 0
    if n < limit then some n else none
  else none

def wordOf? (s : String) : Option Nat := numeral? wordLimit s.toList

def numeralOf (n : Nat) : String := String.ofList (Nat.toDigits 10 n)

/-! ## First facts -/

theorem afterPlus_toDigits (n : Nat) : afterPlus (Nat.toDigits 10 n) = Nat.toDigits 10 n := by
  unfold afterPlus
  split
  · next rest h =>
      have : ('+' : Char).isDigit = true :=
        Nat.isDigit_of_mem_toDigits (by decide) (by decide) (h ▸ List.mem_cons_self)
      exact absurd this (by decide)
  · rfl

theorem numeral?_toDigits {limit n : Nat} (h : n < limit) :
    numeral? limit (Nat.toDigits 10 n) = some n := by
  have hne : Nat.toDigits 10 n ≠ [] := List.ne_nil_of_length_pos Nat.length_toDigits_pos
  have hall : (Nat.toDigits 10 n).all Char.isDigit = true :=
    List.all_eq_true.2 fun c hc =>
      Nat.isDigit_of_mem_toDigits (by decide) (by decide) hc
  simp [numeral?, afterPlus_toDigits, hne, hall, Nat.ofDigitChars_ten_toDigits, h]

end PackageScript.Text
