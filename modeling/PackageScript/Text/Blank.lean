set_option autoImplicit false

/-! # Blank characters

The blanks are the characters with the Unicode property `White_Space`. Lines are trimmed of
them and words are the runs between them. The file holds the test, trimming, and splitting
into words, each on lists of characters with a wrapper for strings.
-/

namespace PackageScript.Text

/-- The characters with the Unicode property `White_Space`. -/
def isBlank (c : Char) : Bool :=
  let n := c.toNat
  (9 ≤ n && n ≤ 13) || n == 0x20 || n == 0x85 || n == 0xA0 || n == 0x1680
    || (0x2000 ≤ n && n ≤ 0x200A) || n == 0x2028 || n == 0x2029 || n == 0x202F
    || n == 0x205F || n == 0x3000

/-- A list of characters without its leading and trailing blanks. -/
def trimmed (s : List Char) : List Char :=
  ((s.dropWhile isBlank).reverse.dropWhile isBlank).reverse

def trim (s : String) : String := String.ofList (trimmed s.toList)

/-- The pieces between the separators, in order. There is one piece more than there are
separators, so the empty list has one empty piece. -/
def pieces (isSep : Char → Bool) : List Char → List (List Char)
  | [] => [[]]
  | c :: cs =>
      if isSep c then [] :: pieces isSep cs
      else (pieces isSep cs).modifyHead (c :: ·)

def words (s : List Char) : List (List Char) :=
  (pieces isBlank s).filter (fun w => !w.isEmpty)

/-- The pieces of a string between the characters that `isSep` accepts. -/
def splitAtAny (isSep : Char → Bool) (s : String) : List String :=
  (pieces isSep s.toList).map String.ofList

def splitAt (sep : Char) (s : String) : List String := splitAtAny (· == sep) s

/-! ## First facts -/

theorem pieces_ne_nil (isSep : Char → Bool) (s : List Char) : pieces isSep s ≠ [] := by
  induction s with
  | nil => simp [pieces]
  | cons c cs ih =>
      by_cases h : isSep c = true
      · simp [pieces, h]
      · cases hp : pieces isSep cs with
        | nil => exact absurd hp ih
        | cons w ws => simp [pieces, h, hp]

theorem isSep_eq_false_of_mem_pieces (isSep : Char → Bool) (s : List Char) :
    ∀ w ∈ pieces isSep s, ∀ c ∈ w, isSep c = false := by
  induction s with
  | nil => simp [pieces]
  | cons c cs ih =>
      by_cases h : isSep c = true
      · simp only [pieces, h, if_true, List.mem_cons, forall_eq_or_imp]
        exact ⟨by simp, ih⟩
      · cases hp : pieces isSep cs with
        | nil => exact absurd hp (pieces_ne_nil isSep cs)
        | cons w ws =>
            rw [hp] at ih
            intro v hv x hx
            simp only [pieces, h, hp, List.modifyHead_cons, List.mem_cons,
              Bool.false_eq_true, if_false] at hv
            rcases hv with rfl | hv
            · rcases List.mem_cons.1 hx with rfl | hx
              · simpa using h
              · exact ih w (by simp) x hx
            · exact ih v (by simp [hv]) x hx

end PackageScript.Text
