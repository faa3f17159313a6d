import Mathlib.Data.Nat.Digits.Defs
import PackageScript.Proofs.Text.Pieces
import PackageScript.Text.Numeral

set_option autoImplicit false

/-! # What numerals denote

A numeral is one or more digits with an optional plus sign in front, and it denotes the sum of its
digits, each times the power of ten of its place (`Denotes`). Zeros in front add nothing. Reading a
numeral gives the number that it denotes if that is below the limit, and fails otherwise
(`numeral?_eq_some_iff`).
-/

namespace PackageScript.Text

/-- The number that digits denote by their places, the last one being the place of the ones. -/
def placeValue (digits : List Char) : Nat :=
  Nat.ofDigits 10 (digits.reverse.map fun c => c.toNat - '0'.toNat)

/-- **A numeral denotes a number.** Any number of zeros may stand in front. -/
inductive Denotes : List Char → Nat → Prop where
  | bare {digits : List Char} (hne : digits ≠ []) (hdigits : ∀ c ∈ digits, c.isDigit = true) :
      Denotes digits (placeValue digits)
  | plus {digits : List Char} (hne : digits ≠ []) (hdigits : ∀ c ∈ digits, c.isDigit = true) :
      Denotes ('+' :: digits) (placeValue digits)

theorem ofDigitChars_eq (digits : List Char) (front : Nat) :
    Nat.ofDigitChars 10 digits front = front * 10 ^ digits.length + placeValue digits := by
  induction digits generalizing front with
  | nil => simp [placeValue]
  | cons c cs ih =>
      rw [Nat.ofDigitChars_cons, ih, placeValue, placeValue, List.reverse_cons, List.map_append,
        List.map_cons, List.map_nil, Nat.ofDigits_append, Nat.ofDigits_singleton, List.length_map,
        List.length_reverse, List.length_cons]
      ring

theorem afterPlus_of_digits {digits : List Char} (h : ∀ c ∈ digits, c.isDigit = true) :
    afterPlus digits = digits := by
  unfold afterPlus
  split
  · exact absurd (h '+' List.mem_cons_self) (by decide)
  · rfl

/-- What a numeral denotes is denoted by the digits behind its sign. -/
theorem denotes_iff {s : List Char} {n : Nat} :
    Denotes s n ↔ afterPlus s ≠ [] ∧ (∀ c ∈ afterPlus s, c.isDigit = true)
      ∧ placeValue (afterPlus s) = n := by
  constructor
  · intro h
    cases h with
    | bare hne hdigits =>
        rw [afterPlus_of_digits hdigits]
        exact ⟨hne, hdigits, rfl⟩
    | plus hne hdigits => exact ⟨hne, hdigits, rfl⟩
  · rintro ⟨hne, hdigits, rfl⟩
    revert hne hdigits
    unfold afterPlus
    split
    · exact fun hne hdigits => .plus hne hdigits
    · exact fun hne hdigits => .bare hne hdigits

theorem Denotes.unique {s : List Char} {n m : Nat} (hn : Denotes s n) (hm : Denotes s m) :
    n = m :=
  (denotes_iff.1 hn).2.2.symm.trans (denotes_iff.1 hm).2.2

/-- **Reading a numeral gives what it denotes**, if that is below the limit. -/
theorem numeral?_eq_some_iff {limit n : Nat} {s : List Char} :
    numeral? limit s = some n ↔ Denotes s n ∧ n < limit := by
  have hvalue : Nat.ofDigitChars 10 (afterPlus s) 0 = placeValue (afterPlus s) := by
    rw [ofDigitChars_eq, Nat.zero_mul, Nat.zero_add]
  rw [numeral?, denotes_iff]
  simp only [List.all_eq_true, hvalue]
  constructor
  · intro h
    split at h
    · next hnumeral =>
        split at h
        · next hlt =>
            obtain rfl := Option.some.inj h
            exact ⟨⟨hnumeral.1, hnumeral.2, rfl⟩, hlt⟩
        · cases h
    · cases h
  · rintro ⟨⟨hne, hdigits, rfl⟩, hlt⟩
    rw [if_pos ⟨hne, hdigits⟩, if_pos hlt]

/-! ## Numbers of 64 bits -/

/-- **A text denotes a number of 64 bits**, once the blanks around it are taken off. -/
def DenotesWord (text : String) (n : Nat) : Prop :=
  n < wordLimit ∧ Denotes (trimmed text.toList) n

theorem DenotesWord.unique {text : String} {n m : Nat} (hn : DenotesWord text n)
    (hm : DenotesWord text m) : n = m := hn.2.unique hm.2

theorem wordOf?_trim_eq_some_iff {text : String} {n : Nat} :
    wordOf? (trim text) = some n ↔ DenotesWord text n := by
  rw [wordOf?, trim, String.toList_ofList, numeral?_eq_some_iff, and_comm]
  rfl

theorem wordOf?_trim_eq_none_iff {text : String} :
    wordOf? (trim text) = none ↔ ¬ ∃ n, DenotesWord text n := by
  rw [Option.eq_none_iff_forall_ne_some, not_exists]
  exact forall_congr' fun n => not_congr wordOf?_trim_eq_some_iff

theorem isBlank_of_isDigit {c : Char} (h : c.isDigit = true) : isBlank c = false := by
  have hlow : 48 ≤ c.toNat ∧ c.toNat ≤ 57 := by simpa [Char.isDigit, UInt32.le_iff_toNat_le] using h
  rw [← Bool.not_eq_true]
  intro hblank
  simp only [isBlank, Bool.or_eq_true, Bool.and_eq_true, decide_eq_true_eq, beq_iff_eq] at hblank
  omega

theorem isDigit_of_mem_numeralOf {n : Nat} {c : Char} (h : c ∈ (numeralOf n).toList) :
    c.isDigit = true := by
  rw [numeralOf, String.toList_ofList] at h
  exact Nat.isDigit_of_mem_toDigits (by decide) (by decide) h

theorem denotes_numeralOf (n : Nat) : Denotes (numeralOf n).toList n := by
  rw [numeralOf, String.toList_ofList]
  exact (numeral?_eq_some_iff.1 (numeral?_toDigits (Nat.lt_succ_self n))).1

theorem denotesWord_numeralOf_iff {n m : Nat} :
    DenotesWord (numeralOf n) m ↔ m = n ∧ n < wordLimit := by
  have htrimmed : trimmed (numeralOf n).toList = (numeralOf n).toList :=
    trimmed_of_no_blank fun c hc => isBlank_of_isDigit (isDigit_of_mem_numeralOf hc)
  rw [DenotesWord, htrimmed]
  constructor
  · rintro ⟨hlt, hm⟩
    obtain rfl := hm.unique (denotes_numeralOf n)
    exact ⟨rfl, hlt⟩
  · rintro ⟨rfl, hlt⟩
    exact ⟨hlt, denotes_numeralOf m⟩

end PackageScript.Text
