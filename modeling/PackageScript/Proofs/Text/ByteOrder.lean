import Mathlib.Data.List.Lex
import PackageScript.Proofs.Glob

set_option autoImplicit false

/-! # The order of strings, byte by byte

Strings are compared character by character, by the numbers of the characters. Comparing their
UTF-8 bytes comes to the same (`bytesBefore_of_lt`): of two characters the larger one has the
larger byte at the first place where their bytes differ, and there is such a place before either
of them ends (`lessAtFirst_utf8EncodeChar`).
-/

namespace PackageScript.Text

/-- At the first place where two lists of bytes differ, the first one has the smaller byte, and
neither has ended there. -/
def LessAtFirst : List UInt8 → List UInt8 → Prop
  | a :: as, b :: bs => a.toNat < b.toNat ∨ a.toNat = b.toNat ∧ LessAtFirst as bs
  | _, _ => False

theorem LessAtFirst.lex_append {as bs : List UInt8} (h : LessAtFirst as bs) (s t : List UInt8) :
    List.Lex (· < ·) (as ++ s) (bs ++ t) := by
  induction as generalizing bs with
  | nil => exact h.elim
  | cons a as ih =>
      cases bs with
      | nil => exact h.elim
      | cons b bs =>
          rcases h with hlt | ⟨heq, hrest⟩
          · exact .rel (UInt8.lt_iff_toNat_lt.2 hlt)
          · rw [UInt8.toNat_inj.1 heq]
            exact .cons (ih hrest)

/-- Numbers compare as their digits to the base 64 do. -/
theorem digits_lt {v w : Nat} (h : v < w) :
    v / 262144 < w / 262144 ∨ v / 262144 = w / 262144
      ∧ (v / 4096 % 64 < w / 4096 % 64 ∨ v / 4096 % 64 = w / 4096 % 64
        ∧ (v / 64 % 64 < w / 64 % 64 ∨ v / 64 % 64 = w / 64 % 64 ∧ v % 64 < w % 64)) := by
  have hdigits : ∀ n,
      n = 64 * (64 * (64 * (n / 262144) + n / 4096 % 64) + n / 64 % 64) + n % 64 := by
    intro n
    omega
  have hv := hdigits v
  have hw := hdigits w
  have hsmall : ∀ n, n % 64 < 64 := fun n => Nat.mod_lt n (by decide)
  have hv₁ := hsmall (v / 4096)
  have hv₂ := hsmall (v / 64)
  have hv₃ := hsmall v
  have hw₁ := hsmall (w / 4096)
  have hw₂ := hsmall (w / 64)
  have hw₃ := hsmall w
  generalize v / 262144 = a, v / 4096 % 64 = b, v / 64 % 64 = c, v % 64 = d at *
  generalize w / 262144 = a', w / 4096 % 64 = b', w / 64 % 64 = c', w % 64 = d' at *
  omega

/-- **The bytes of characters compare as the characters do.** -/
theorem lessAtFirst_utf8EncodeChar {c d : Char} (h : c < d) :
    LessAtFirst (String.utf8EncodeChar c) (String.utf8EncodeChar d) := by
  have hlt : c.val.toNat < d.val.toNat := UInt32.lt_iff_toNat_lt.1 h
  have hmax : d.val.toNat < 1114112 := by
    have hvalid : d.val.toNat < 55296 ∨ 57343 < d.val.toNat ∧ d.val.toNat < 1114112 := d.valid
    omega
  unfold String.utf8EncodeChar
  simp only
  generalize c.val.toNat = v at *
  generalize d.val.toNat = w at *
  have hdigits := digits_lt hlt
  have hlast : ∀ n, (n % 64 + 128) % 256 = n % 64 + 128 := by
    intro n
    omega
  have hfirst : ∀ n, n < 1114112 → (n / 262144 % 8 + 240) % 256 = n / 262144 + 240 := by
    intro n hn
    omega
  -- a longer encoding begins with a larger byte, and equally long ones are digits of the numbers
  split_ifs
  all_goals
    simp only [LessAtFirst, UInt8.toNat_ofNat', and_false, or_false, hlast,
      hfirst v (hlt.trans hmax), hfirst w hmax]
    omega

/-- A string comes before another by its bytes. -/
def BytesBefore (a b : String) : Prop := List.Lex (· < ·) a.toUTF8.toList b.toUTF8.toList

theorem not_bytesBefore_self (a : String) : ¬ BytesBefore a a := List.lex_irrefl UInt8.lt_irrefl _

/-- **The bytes of strings compare as the strings do.** -/
theorem bytesBefore_of_lt {a b : String} (h : a < b) : BytesBefore a b := by
  have hbytes : ∀ s : String, s.toUTF8.toList = s.toList.flatMap String.utf8EncodeChar := by
    intro s
    rw [toList_bytes, String.toUTF8, ← String.utf8Encode_toList, List.utf8Encode,
      List.toList_data_toByteArray]
  rw [String.lt_iff] at h
  rw [BytesBefore, hbytes, hbytes]
  generalize a.toList = as at h
  generalize b.toList = bs at h
  induction h with
  | @nil c cs =>
      rw [List.flatMap_cons]
      obtain ⟨b, bytes, hb⟩ := List.exists_cons_of_ne_nil (String.utf8EncodeChar_ne_nil (c := c))
      rw [hb]
      exact .nil
  | cons _ ih =>
      rw [List.flatMap_cons, List.flatMap_cons]
      exact List.Lex.append_left _ ih _
  | rel hlt =>
      rw [List.flatMap_cons, List.flatMap_cons]
      exact (lessAtFirst_utf8EncodeChar hlt).lex_append _ _

end PackageScript.Text
