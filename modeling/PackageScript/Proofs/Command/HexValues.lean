import PackageScript.Command.HexValue
import PackageScript.Proofs.Text.Numerals

set_option autoImplicit false

/-! # The digits of a decimal value

A decimal value of a patch becomes hexadecimal digits, two for each of its bytes. What the digits
stand for is said by reading them back (`Spells`), and what the bytes stand for by their places
(`bigEndian`, `littleEndian`), so that nothing of how they are made enters the statement. The main
result is `ofDecimal_exact`: exactly the numerals below the limit have digits, these stand for the
fewest bytes that denote the number, and in reversed order for the same bytes from the other end.
-/

namespace PackageScript.HexForm

/-! ## Digits read back -/

def upperDigits : List Char := "0123456789ABCDEF".toList

/-- The bytes that upper-case hexadecimal digits stand for, two digits for each. -/
def readBytes? : List Char → Option (List UInt8)
  | [] => some []
  | [_] => none
  | high :: low :: rest =>
      (upperDigits.idxOf? high).bind fun h => (upperDigits.idxOf? low).bind fun l =>
        (readBytes? rest).map (UInt8.ofNat (16 * h + l) :: ·)

/-- **Digits stand for bytes**: upper-case digits, two for each byte, that read back as them. -/
structure Spells (digits : String) (bytes : List UInt8) : Prop where
  upper : ∀ c ∈ digits.toList, c ∈ upperDigits
  length : digits.length = 2 * bytes.length
  read : readBytes? digits.toList = some bytes

theorem Spells.unique {digits : String} {bytes others : List UInt8} (h : Spells digits bytes)
    (hothers : Spells digits others) : bytes = others :=
  Option.some.inj (h.read.symm.trans hothers.read)

theorem hexDigit_mem_upperDigits : ∀ n < 16, hexDigit n ∈ upperDigits := by decide

theorem idxOf?_hexDigit : ∀ n < 16, upperDigits.idxOf? (hexDigit n) = some n := by decide

theorem toNat_div_lt (b : UInt8) : b.toNat / 16 < 16 := by
  have hb : b.toNat < 256 := b.toNat_lt
  omega

theorem toNat_mod_lt (b : UInt8) : b.toNat % 16 < 16 := Nat.mod_lt _ (by decide)

theorem readBytes?_append {digits : List Char} {bytes : List UInt8}
    (h : readBytes? digits = some bytes) (more : List Char) :
    readBytes? (digits ++ more) = (readBytes? more).map (bytes ++ ·) := by
  induction digits using readBytes?.induct generalizing bytes with
  | case1 =>
      obtain rfl := Option.some.inj h
      exact Option.map_id'.symm
  | case2 c => cases h
  | case3 high low rest ih =>
      rw [readBytes?] at h
      obtain ⟨i, hi, h⟩ := Option.bind_eq_some_iff.1 h
      obtain ⟨j, hj, h⟩ := Option.bind_eq_some_iff.1 h
      obtain ⟨tail, htail, rfl⟩ := Option.map_eq_some_iff.1 h
      rw [List.cons_append, List.cons_append, readBytes?, hi, Option.bind_some, hj,
        Option.bind_some, ih htail, Option.map_map]
      rfl

theorem Spells.append {digits more : String} {bytes others : List UInt8} (h : Spells digits bytes)
    (hmore : Spells more others) : Spells (digits ++ more) (bytes ++ others) where
  upper c hc := by
    rw [String.toList_append] at hc
    exact (List.mem_append.1 hc).elim (h.upper c) (hmore.upper c)
  length := by
    rw [String.length_append, h.length, hmore.length, List.length_append, Nat.mul_add]
  read := by
    rw [String.toList_append, readBytes?_append h.read, hmore.read, Option.map_some]

theorem spells_hexOfByte (b : UInt8) : Spells (String.ofList (hexOfByte b)) [b] where
  upper c hc := by
    rw [String.toList_ofList] at hc
    rcases List.mem_cons.1 hc with rfl | hc
    · exact hexDigit_mem_upperDigits _ (toNat_div_lt b)
    · obtain rfl := List.mem_singleton.1 hc
      exact hexDigit_mem_upperDigits _ (toNat_mod_lt b)
  length := by rw [String.length_ofList]; rfl
  read := by
    rw [String.toList_ofList, hexOfByte, readBytes?, idxOf?_hexDigit _ (toNat_div_lt b),
      idxOf?_hexDigit _ (toNat_mod_lt b), Option.bind_some, Option.bind_some, readBytes?,
      Option.map_some, Nat.div_add_mod, UInt8.ofNat_toNat]

/-- **The digits of some bytes stand for these bytes.** -/
theorem spells_hexOfBytes (bytes : List UInt8) : Spells (hexOfBytes bytes) bytes := by
  induction bytes with
  | nil => exact ⟨fun c hc => absurd hc List.not_mem_nil, rfl, rfl⟩
  | cons b rest ih =>
      have hcons : hexOfBytes (b :: rest) = String.ofList (hexOfByte b) ++ hexOfBytes rest := by
        rw [hexOfBytes, List.flatMap_cons, String.ofList_append, hexOfBytes]
      rw [hcons]
      exact (spells_hexOfByte b).append ih

/-! ## Bytes read as a number -/

/-- The number that bytes denote, the lowest byte first. -/
def littleEndian (bytes : List UInt8) : Nat := Nat.ofDigits 256 (bytes.map UInt8.toNat)

def bigEndian (bytes : List UInt8) : Nat := littleEndian bytes.reverse

/-- **The bytes of a number**, the highest first: no zero stands in front, except that zero itself
has one byte. -/
structure IsBytesOf (n : Nat) (bytes : List UInt8) : Prop where
  value : bigEndian bytes = n
  ne_nil : bytes ≠ []
  minimal : bytes.head? = some 0 → n = 0 ∧ bytes = [0]

theorem IsBytesOf.littleEndian_reverse {n : Nat} {bytes : List UInt8} (h : IsBytesOf n bytes) :
    littleEndian bytes.reverse = n := h.value

theorem littleEndian_lowBytes (count n : Nat) :
    littleEndian (lowBytes count n) = n % 256 ^ count := by
  induction count generalizing n with
  | zero => rw [Nat.pow_zero, Nat.mod_one]; rfl
  | succ count ih =>
      have hrest := ih (n / 256)
      rw [littleEndian] at hrest
      rw [lowBytes, littleEndian, List.map_cons, Nat.ofDigits_cons, hrest, Nat.pow_succ',
        Nat.mod_mul, UInt8.toNat_ofNat']

theorem bigEndian_zero_cons (bytes : List UInt8) : bigEndian (0 :: bytes) = bigEndian bytes := by
  rw [bigEndian, littleEndian, List.reverse_cons, List.map_append, Nat.ofDigits_append]
  rfl

theorem bigEndian_withoutZeros (bytes : List UInt8) :
    bigEndian (withoutZeros bytes) = bigEndian bytes := by
  induction bytes using withoutZeros.induct with
  | case1 => rfl
  | case2 b => rfl
  | case3 c rest ih => rw [withoutZeros, if_pos rfl, ih, bigEndian_zero_cons]
  | case4 b c rest hb => rw [withoutZeros, if_neg hb]

/-- A zero that stays in front stands alone. -/
theorem withoutZeros_of_head? {bytes : List UInt8} (h : (withoutZeros bytes).head? = some 0) :
    withoutZeros bytes = [0] := by
  induction bytes using withoutZeros.induct with
  | case1 => cases h
  | case2 b => rw [withoutZeros, Option.some.inj h]
  | case3 c rest ih =>
      rw [withoutZeros, if_pos rfl] at h ⊢
      exact ih h
  | case4 b c rest hb =>
      rw [withoutZeros, if_neg hb] at h
      exact absurd (Option.some.inj h) hb

theorem withoutZeros_ne_nil {bytes : List UInt8} (h : bytes ≠ []) : withoutZeros bytes ≠ [] := by
  induction bytes using withoutZeros.induct with
  | case1 => exact absurd rfl h
  | case2 b => exact h
  | case3 c rest ih =>
      rw [withoutZeros, if_pos rfl]
      exact ih (List.cons_ne_nil c rest)
  | case4 b c rest hb =>
      rw [withoutZeros, if_neg hb]
      exact h

/-- **A number of 64 bits is written as its bytes.** -/
theorem isBytesOf_bytesOfWord {n : Nat} (h : n < Text.wordLimit) : IsBytesOf n (bytesOfWord n) := by
  have hvalue : bigEndian (bytesOfWord n) = n := by
    rw [bytesOfWord, bigEndian_withoutZeros, bigEndian, List.reverse_reverse,
      littleEndian_lowBytes]
    exact Nat.mod_eq_of_lt h
  refine ⟨hvalue, withoutZeros_ne_nil (by simp [lowBytes]), fun hzero => ?_⟩
  have hbytes : bytesOfWord n = [0] := withoutZeros_of_head? hzero
  rw [hbytes] at hvalue
  exact ⟨hvalue.symm, hbytes⟩

/-! ## Decimal values -/

theorem ofDecimal_of_denotes {text : String} {n : Nat} (h : Text.DenotesWord text n) :
    ofDecimal text = .ok (hexOfBytes (bytesOfWord n))
      ∧ ofReversedDecimal text = .ok (hexOfBytes (bytesOfWord n).reverse) := by
  rw [ofDecimal, ofReversedDecimal, decimalBytes, Text.wordOf?_trim_eq_some_iff.2 h]
  exact ⟨rfl, rfl⟩

theorem ofDecimal_of_not_denotes {text : String} (h : ¬ ∃ n, Text.DenotesWord text n) :
    ofDecimal text = .error (.notDecimal text)
      ∧ ofReversedDecimal text = .error (.notDecimal text) := by
  rw [ofDecimal, ofReversedDecimal, decimalBytes, Text.wordOf?_trim_eq_none_iff.2 h]
  exact ⟨rfl, rfl⟩

/-- **Decimal values are exact.** A text that denotes a number of 64 bits becomes the digits of its
bytes, and reversed the digits of these bytes from the other end; every other text is refused as
malformed; and texts that become the same digits denote the same number. -/
theorem ofDecimal_exact (text : String) :
    (∀ n, Text.DenotesWord text n → ∃ bytes digits reversed,
        ofDecimal text = .ok digits ∧ Spells digits bytes ∧ IsBytesOf n bytes
          ∧ (n = 0 → digits = "00")
          ∧ ofReversedDecimal text = .ok reversed ∧ Spells reversed bytes.reverse
          ∧ littleEndian bytes.reverse = n)
      ∧ ((¬ ∃ n, Text.DenotesWord text n) → ofDecimal text = .error (.notDecimal text)
          ∧ ofReversedDecimal text = .error (.notDecimal text))
      ∧ ∀ other n m digits, Text.DenotesWord text n → Text.DenotesWord other m →
          (ofDecimal text = .ok digits → ofDecimal other = .ok digits → n = m)
            ∧ (ofReversedDecimal text = .ok digits → ofReversedDecimal other = .ok digits →
              n = m) := by
  refine ⟨fun n hn => ?_, ofDecimal_of_not_denotes, fun other n m digits hn hm => ?_⟩
  · obtain ⟨hdigits, hreversed⟩ := ofDecimal_of_denotes hn
    have hbytes := isBytesOf_bytesOfWord hn.1
    refine ⟨bytesOfWord n, _, _, hdigits, spells_hexOfBytes _, hbytes, ?_, hreversed,
      spells_hexOfBytes _, hbytes.littleEndian_reverse⟩
    rintro rfl
    decide +kernel
  · obtain ⟨hdigits, hreversed⟩ := ofDecimal_of_denotes hn
    obtain ⟨hothers, hothersReversed⟩ := ofDecimal_of_denotes hm
    -- equal digits stand for equal bytes, and these denote one number
    have hvalue : ∀ bytes others : List UInt8, hexOfBytes bytes = hexOfBytes others →
        bytes = others := fun bytes others h =>
      (spells_hexOfBytes bytes).unique (h ▸ spells_hexOfBytes others)
    have hsame : bytesOfWord n = bytesOfWord m → n = m := fun h => by
      rw [← (isBytesOf_bytesOfWord hn.1).value, h, (isBytesOf_bytesOfWord hm.1).value]
    constructor
    · intro h hother
      rw [hdigits] at h
      rw [hothers] at hother
      exact hsame (hvalue _ _ (Except.ok.inj (h.trans hother.symm)))
    · intro h hother
      rw [hreversed] at h
      rw [hothersReversed] at hother
      exact hsame (List.reverse_inj.1 (hvalue _ _ (Except.ok.inj (h.trans hother.symm))))

/-- A numeral between blanks, with a sign and zeros in front, and the first number that is too
large. -/
theorem ofDecimal_signed_and_too_large :
    (Text.DenotesWord " +00258\n" 258
        ∧ ∃ bytes digits reversed, ofDecimal " +00258\n" = .ok digits ∧ Spells digits bytes
          ∧ IsBytesOf 258 bytes ∧ ofReversedDecimal " +00258\n" = .ok reversed
          ∧ Spells reversed bytes.reverse)
      ∧ (¬ ∃ n, Text.DenotesWord "18446744073709551616" n)
      ∧ ofDecimal "18446744073709551616" = .error (.notDecimal "18446744073709551616") := by
  have hsigned : Text.DenotesWord " +00258\n" 258 :=
    Text.wordOf?_trim_eq_some_iff.1 (by decide +kernel)
  have hlarge : ¬ ∃ n, Text.DenotesWord "18446744073709551616" n :=
    Text.wordOf?_trim_eq_none_iff.1 (by decide +kernel)
  obtain ⟨bytes, digits, reversed, hdigits, hspells, hbytes, -, hreversed, hspellsReversed, -⟩ :=
    (ofDecimal_exact " +00258\n").1 258 hsigned
  exact ⟨⟨hsigned, bytes, digits, reversed, hdigits, hspells, hbytes, hreversed, hspellsReversed⟩,
    hlarge, ((ofDecimal_exact "18446744073709551616").2.1 hlarge).1⟩

end PackageScript.HexForm
