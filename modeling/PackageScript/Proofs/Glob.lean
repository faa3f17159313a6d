import PackageScript.Proofs.Files.Expand

set_option autoImplicit false

/-! # Patterns that every name matches

A star takes any run of bytes without a slash, and a name has no slash in it. So a pattern that is
nothing but stars matches every name, however many stars there are (`Glob.admits_stars`).
-/

namespace PackageScript

/-! ## The bytes of a name -/

theorem toList_loop_eq (bytes : ByteArray) (i : Nat) (front : List UInt8) :
    ByteArray.toList.loop bytes i front = front.reverse ++ bytes.data.toList.drop i := by
  unfold ByteArray.toList.loop
  by_cases hi : i < bytes.size
  · have hlt : i < bytes.data.toList.length := by
      rw [Array.length_toList]
      exact hi
    have hget : bytes.get! i = bytes.data.toList[i] := by
      show bytes.data[i]! = _
      rw [getElem!_pos bytes.data i hi, Array.getElem_toList]
    rw [if_pos hi, toList_loop_eq bytes (i + 1), hget, List.reverse_cons, List.append_assoc,
      List.singleton_append, ← List.drop_eq_getElem_cons hlt]
  · have hlen : bytes.data.toList.length ≤ i := by
      rw [Array.length_toList]
      exact Nat.not_lt.1 hi
    rw [if_neg hi, List.drop_eq_nil_of_le hlen, List.append_nil]
termination_by bytes.size - i

theorem toList_bytes (bytes : ByteArray) : bytes.toList = bytes.data.toList := by
  rw [ByteArray.toList, toList_loop_eq, List.reverse_nil, List.nil_append, List.drop_zero]

theorem mem_toUTF8_iff {s : String} {b : UInt8} :
    b ∈ s.toUTF8.toList ↔ ∃ c ∈ s.toList, b ∈ String.utf8EncodeChar c := by
  rw [toList_bytes, String.toUTF8, ← String.utf8Encode_toList, List.utf8Encode,
    List.toList_data_toByteArray, List.mem_flatMap]

theorem slash_ne_ofNat {n : Nat} (hlow : 128 ≤ n) (hhigh : n < 256) :
    Glob.slash ≠ UInt8.ofNat n := by
  intro h
  have hval : Glob.slash.toNat = n % 256 := by
    rw [h, UInt8.toNat_ofNat']
  have hslash : Glob.slash.toNat = 47 := rfl
  omega

/-- Only a slash has the byte of a slash in it. -/
theorem eq_slash_of_mem_utf8 {c : Char} (h : Glob.slash ∈ String.utf8EncodeChar c) : c = '/' := by
  unfold String.utf8EncodeChar at h
  simp only at h
  -- a character of several bytes has none below 128
  split at h
  · next hsmall =>
      have hval : Glob.slash.toNat = c.val.toNat % 256 := by
        rw [List.mem_singleton.1 h, UInt8.toNat_ofNat']
      have hslash : Glob.slash.toNat = 47 := rfl
      refine Char.ext (UInt32.toNat_inj.1 ?_)
      have hchar : ('/' : Char).val.toNat = 47 := rfl
      omega
  · exfalso
    split at h
    · simp only [List.mem_cons, List.not_mem_nil, or_false] at h
      rcases h with h | h <;> exact slash_ne_ofNat (by omega) (by omega) h
    · split at h
      · simp only [List.mem_cons, List.not_mem_nil, or_false] at h
        rcases h with h | h | h <;> exact slash_ne_ofNat (by omega) (by omega) h
      · simp only [List.mem_cons, List.not_mem_nil, or_false] at h
        rcases h with h | h | h | h <;> exact slash_ne_ofNat (by omega) (by omega) h

theorem slash_not_mem_bytes {name : String} (h : '/' ∉ name.toList) :
    Glob.slash ∉ name.toUTF8.toList := by
  rw [mem_toUTF8_iff]
  rintro ⟨c, hc, hmem⟩
  exact h (eq_slash_of_mem_utf8 hmem ▸ hc)

/-! ## Stars -/

namespace Glob

theorem nil_mem_afterStar {bytes : List UInt8} (h : slash ∉ bytes) : [] ∈ afterStar bytes := by
  induction bytes with
  | nil => exact List.mem_singleton_self _
  | cons b bs ih =>
      obtain ⟨hb, hbs⟩ := List.ne_and_not_mem_of_not_mem_cons h
      rw [afterStar, if_neg (Ne.symm hb)]
      exact List.mem_cons_of_mem _ (ih hbs)

theorem self_mem_afterStar (bytes : List UInt8) : bytes ∈ afterStar bytes := by
  cases bytes with
  | nil => exact List.mem_singleton_self _
  | cons b bs => exact List.mem_cons_self

theorem marks_stars (n : Nat) :
    marks .between (List.replicate n '*') = (List.replicate n .star, none) := by
  induction n with
  | zero => rfl
  | succ n ih =>
      rw [List.replicate_succ, marks, if_neg (by decide), if_neg (by decide), ih]
      rfl

theorem assemble_stars (n : Nat) (parts : List Glob) :
    assemble [⟨[], parts⟩] (List.replicate n .star)
      = .ok [⟨[], List.replicate n .star ++ parts⟩] := by
  induction n generalizing parts with
  | zero => rfl
  | succ n ih =>
      rw [List.replicate_succ, assemble, addPart, ih]
      simp [List.replicate_succ', List.append_assoc]

/-- Stars one after the other may leave nothing. -/
theorem nil_mem_rests_stars (n : Nat) {bytes : List UInt8} (h : slash ∉ bytes) :
    [] ∈ (inOrder (List.replicate (n + 1) .star)).rests bytes := by
  have hfilter : ∀ k, (List.replicate k Glob.star).filter (fun g => !g.isEmpty)
      = List.replicate k .star := fun k => by
    rw [List.filter_replicate]
    rfl
  rw [inOrder, hfilter]
  induction n with
  | zero => exact nil_mem_afterStar h
  | succ n ih =>
      rw [List.replicate_succ, List.foldr_cons]
      split
      · exact nil_mem_afterStar h
      · -- the first star takes nothing, and the others take all
        rw [rests, List.mem_eraseDups, List.mem_flatMap]
        exact ⟨bytes, self_mem_afterStar bytes, ih⟩

def stars (n : Nat) : String := String.ofList (List.replicate (n + 1) '*')

theorem toList_stars (n : Nat) : (stars n).toList = List.replicate (n + 1) '*' :=
  String.toList_ofList

theorem isPattern_stars (n : Nat) : isPattern (stars n) = true := by
  rw [isPattern, toList_stars]
  exact List.contains_iff_mem.2 (List.mem_replicate.2 ⟨by omega, rfl⟩)

theorem isSegment_stars (n : Nat) : IsSegment (stars n) := by
  refine ⟨fun hempty => ?_, fun hslash => ?_⟩
  · rw [← String.toList_eq_nil_iff, toList_stars, List.replicate_succ] at hempty
    cases hempty
  · rw [toList_stars] at hslash
    exact absurd (List.mem_replicate.1 hslash).2 (by decide)

/-- **A segment of stars admits every name.** -/
theorem admits_stars (n : Nat) {name : String} (h : IsName name) :
    FileSystem.Admits matcher (stars n) name := by
  have hglob : ofText (stars n) = .ok (inOrder (List.replicate (n + 1) .star)) := by
    rw [ofText, toList_stars, marks_stars]
    dsimp only
    rw [assemble_stars, List.append_nil]
    dsimp only
    rw [List.reverse_replicate]
  refine (FileSystem.admits_iff_of_pattern (isPattern_stars n)).2
    ⟨(inOrder (List.replicate (n + 1) .star)).matches?, ?_, ?_⟩
  · rw [matcher, hglob]
  · rw [matches?, List.contains_iff_mem]
    exact nil_mem_rests_stars n (slash_not_mem_bytes h.no_slash)

end Glob

end PackageScript
