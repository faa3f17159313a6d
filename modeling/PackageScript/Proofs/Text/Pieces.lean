import Mathlib.Data.List.TakeWhile
import PackageScript.Text.Blank

set_option autoImplicit false

/-! # The pieces of a text

Texts are cut at separators in many places: a script into lines, a line into quoted and plain
spans, a span into words, a path into names. What they share is said here once: where a text may
be cut in two without changing its pieces, and which characters a piece is made of. The same is
said of trimming, which never adds a character and leaves a text alone that has no blank at its
ends.
-/

namespace PackageScript.Text

/-! ## Cutting at separators -/

theorem pieces_append_cons {isSep : Char → Bool} {c : Char} (hc : isSep c = true)
    (a b : List Char) : pieces isSep (a ++ c :: b) = pieces isSep a ++ pieces isSep b := by
  induction a with
  | nil => simp [pieces, hc]
  | cons x xs ih =>
      by_cases hx : isSep x = true
      · simp [pieces, hx, ih]
      · obtain ⟨w, ws, hw⟩ := List.exists_cons_of_ne_nil (pieces_ne_nil isSep xs)
        simp [pieces, hx, ih, hw]

theorem pieces_eq_singleton {isSep : Char → Bool} {s : List Char}
    (h : ∀ c ∈ s, isSep c = false) : pieces isSep s = [s] := by
  induction s with
  | nil => rfl
  | cons c cs ih =>
      have hc := h c List.mem_cons_self
      simp [pieces, hc, ih fun d hd => h d (List.mem_cons_of_mem _ hd)]

theorem mem_of_mem_pieces {isSep : Char → Bool} {s w : List Char} (hw : w ∈ pieces isSep s) :
    ∀ c ∈ w, c ∈ s := by
  induction s generalizing w with
  | nil =>
      rw [pieces, List.mem_singleton] at hw
      rw [hw]
      exact fun c hc => hc
  | cons x xs ih =>
      intro c hc
      by_cases hx : isSep x = true
      · rw [pieces, if_pos hx] at hw
        rcases List.mem_cons.1 hw with rfl | hw
        · cases hc
        · exact List.mem_cons_of_mem _ (ih hw c hc)
      -- a character that separates nothing goes in front of the first piece behind it
      · obtain ⟨v, vs, hv⟩ := List.exists_cons_of_ne_nil (pieces_ne_nil isSep xs)
        rw [pieces, if_neg hx, hv, List.modifyHead_cons] at hw
        rw [hv] at ih
        rcases List.mem_cons.1 hw with rfl | hw
        · rcases List.mem_cons.1 hc with rfl | hc
          · exact List.mem_cons_self
          · exact List.mem_cons_of_mem _ (ih List.mem_cons_self c hc)
        · exact List.mem_cons_of_mem _ (ih (List.mem_cons_of_mem _ hw) c hc)

theorem prefix_of_pieces_eq_cons {isSep : Char → Bool} {s w : List Char} {ws : List (List Char)}
    (h : pieces isSep s = w :: ws) : w <+: s := by
  induction s generalizing w ws with
  | nil =>
      obtain ⟨rfl, -⟩ := List.cons.inj h
      exact List.nil_prefix
  | cons x xs ih =>
      by_cases hx : isSep x = true
      · rw [pieces, if_pos hx] at h
        obtain ⟨rfl, -⟩ := List.cons.inj h
        exact List.nil_prefix
      · obtain ⟨v, vs, hv⟩ := List.exists_cons_of_ne_nil (pieces_ne_nil isSep xs)
        rw [pieces, if_neg hx, hv, List.modifyHead_cons] at h
        obtain ⟨rfl, -⟩ := List.cons.inj h
        exact List.cons_prefix_cons.2 ⟨rfl, ih hv⟩

theorem infix_of_mem_pieces {isSep : Char → Bool} {s w : List Char} (hw : w ∈ pieces isSep s) :
    w <:+: s := by
  induction s generalizing w with
  | nil =>
      obtain rfl := List.mem_singleton.1 hw
      exact List.nil_infix
  | cons x xs ih =>
      obtain ⟨v, vs, hv⟩ := List.exists_cons_of_ne_nil (pieces_ne_nil isSep (x :: xs))
      rw [hv] at hw
      rcases List.mem_cons.1 hw with rfl | hw
      · exact (prefix_of_pieces_eq_cons hv).isInfix
      -- the pieces behind the first one are pieces of what follows
      · refine List.infix_cons (ih ?_)
        by_cases hx : isSep x = true
        · rw [pieces, if_pos hx] at hv
          rw [(List.cons.inj hv).2]
          exact hw
        · obtain ⟨u, us, hu⟩ := List.exists_cons_of_ne_nil (pieces_ne_nil isSep xs)
          rw [pieces, if_neg hx, hu, List.modifyHead_cons] at hv
          rw [hu, (List.cons.inj hv).2]
          exact List.mem_cons_of_mem _ hw

/-- Every character that separates nothing stands in a piece. -/
theorem exists_piece_of_mem (isSep : Char → Bool) {s : List Char} {c : Char} (hc : c ∈ s)
    (hsep : isSep c = false) : ∃ w ∈ pieces isSep s, c ∈ w := by
  induction s with
  | nil => cases hc
  | cons x xs ih =>
      by_cases hx : isSep x = true
      · have hne : c ≠ x := by
          rintro rfl
          rw [hsep] at hx
          cases hx
        obtain ⟨w, hw, hcw⟩ := ih ((List.mem_cons.1 hc).resolve_left hne)
        rw [pieces, if_pos hx]
        exact ⟨w, List.mem_cons_of_mem _ hw, hcw⟩
      · obtain ⟨v, vs, hv⟩ := List.exists_cons_of_ne_nil (pieces_ne_nil isSep xs)
        rw [hv] at ih
        rw [pieces, if_neg hx, hv, List.modifyHead_cons]
        rcases List.mem_cons.1 hc with rfl | hc
        · exact ⟨c :: v, List.mem_cons_self, List.mem_cons_self⟩
        · obtain ⟨w, hw, hcw⟩ := ih hc
          rcases List.mem_cons.1 hw with rfl | hw
          · exact ⟨x :: w, List.mem_cons_self, List.mem_cons_of_mem _ hcw⟩
          · exact ⟨w, List.mem_cons_of_mem _ hw, hcw⟩

/-! ### One character as separator -/

theorem pieces_append_sep (sep : Char) (a b : List Char) :
    pieces (· == sep) (a ++ sep :: b) = pieces (· == sep) a ++ pieces (· == sep) b :=
  pieces_append_cons (by simp) a b

theorem pieces_of_not_mem {sep : Char} {s : List Char} (h : sep ∉ s) :
    pieces (· == sep) s = [s] := by
  apply pieces_eq_singleton
  intro c hc
  rw [beq_eq_false_iff_ne]
  rintro rfl
  exact h hc

theorem exists_first_piece (sep : Char) (s : List Char) :
    ∃ first rest, pieces (· == sep) s = first :: rest
      ∧ ∀ w, sep ∉ w → pieces (· == sep) (w ++ s) = (w ++ first) :: rest := by
  by_cases hs : sep ∈ s
  · obtain ⟨first, behind, rfl, hfirst⟩ := List.eq_append_cons_of_mem hs
    refine ⟨first, pieces (· == sep) behind, ?_, fun w hw => ?_⟩
    · rw [pieces_append_sep, pieces_of_not_mem hfirst, List.singleton_append]
    · have hin : sep ∉ w ++ first := fun h => (List.mem_append.1 h).elim hw hfirst
      rw [← List.append_assoc, pieces_append_sep, pieces_of_not_mem hin, List.singleton_append]
  · refine ⟨s, [], pieces_of_not_mem hs, fun w hw => ?_⟩
    exact pieces_of_not_mem fun h => (List.mem_append.1 h).elim hw hs

/-- A text without separators behind another goes to the last piece. -/
theorem exists_last_piece (sep : Char) (s : List Char) :
    ∃ front last, pieces (· == sep) s = front ++ [last]
      ∧ ∀ w, sep ∉ w → pieces (· == sep) (s ++ w) = front ++ [last ++ w] := by
  induction s with
  | nil => exact ⟨[], [], rfl, fun w hw => pieces_of_not_mem hw⟩
  | cons c cs ih =>
      obtain ⟨front, last, hpieces, hbehind⟩ := ih
      by_cases hc : (c == sep) = true
      · refine ⟨[] :: front, last, by rw [pieces, if_pos hc, hpieces]; rfl, fun w hw => ?_⟩
        rw [List.cons_append, pieces, if_pos hc, hbehind w hw]
        rfl
      · cases front with
        | nil =>
            refine ⟨[], c :: last, by rw [pieces, if_neg hc, hpieces]; rfl, fun w hw => ?_⟩
            rw [List.cons_append, pieces, if_neg hc, hbehind w hw]
            rfl
        | cons first front =>
            refine ⟨(c :: first) :: front, last, by rw [pieces, if_neg hc, hpieces]; rfl,
              fun w hw => ?_⟩
            rw [List.cons_append, pieces, if_neg hc, hbehind w hw]
            rfl

theorem not_mem_of_mem_pieces {sep : Char} {s w : List Char} (hw : w ∈ pieces (· == sep) s) :
    sep ∉ w := by
  intro hmem
  have hsep := isSep_eq_false_of_mem_pieces (· == sep) s w hw sep hmem
  rw [beq_self_eq_true] at hsep
  cases hsep

theorem pieces_flatMap_concat {sep : Char} {lines : List (List Char)}
    (h : ∀ line ∈ lines, sep ∉ line) :
    pieces (· == sep) (lines.flatMap (· ++ [sep])) = lines ++ [[]] := by
  induction lines with
  | nil => rfl
  | cons line rest ih =>
      rw [List.flatMap_cons, List.append_assoc, List.singleton_append, pieces_append_sep,
        pieces_of_not_mem (h line List.mem_cons_self),
        ih fun l hl => h l (List.mem_cons_of_mem _ hl)]
      rfl

theorem pieces_intercalate {isSep : Char → Bool} {sep : Char} (hsep : isSep sep = true)
    {w : List Char} {ws : List (List Char)} (h : ∀ v ∈ w :: ws, ∀ c ∈ v, isSep c = false) :
    pieces isSep ([sep].intercalate (w :: ws)) = w :: ws := by
  induction ws generalizing w with
  | nil => rw [List.intercalate_singleton, pieces_eq_singleton (h w List.mem_cons_self)]
  | cons v vs ih =>
      rw [List.intercalate_cons_cons, List.append_assoc, List.singleton_append,
        pieces_append_cons hsep, pieces_eq_singleton (h w List.mem_cons_self),
        ih fun u hu => h u (List.mem_cons_of_mem w hu)]
      rfl

/-! ## Trimming -/

theorem mem_of_mem_trimmed {s : List Char} {c : Char} (h : c ∈ trimmed s) : c ∈ s := by
  rw [trimmed, List.mem_reverse] at h
  have hfront := List.mem_reverse.1 ((List.dropWhile_sublist _).subset h)
  exact (List.dropWhile_sublist _).subset hfront

theorem trimmed_wrap {a b : Char} (ha : isBlank a = false) (hb : isBlank b = false)
    (s : List Char) : trimmed (a :: (s ++ [b])) = a :: (s ++ [b]) := by
  have hfront : (a :: (s ++ [b])).dropWhile isBlank = a :: (s ++ [b]) :=
    List.dropWhile_cons_of_neg (by simp [ha])
  have hback : (a :: (s ++ [b])).reverse = b :: (a :: s).reverse := by simp
  rw [trimmed, hfront, hback, List.dropWhile_cons_of_neg (by simp [hb]), ← hback,
    List.reverse_reverse]

theorem trimmed_of_no_blank {s : List Char} (h : ∀ c ∈ s, isBlank c = false) : trimmed s = s := by
  have hkeep : ∀ t : List Char, (∀ c ∈ t, isBlank c = false) → t.dropWhile isBlank = t := by
    intro t ht
    cases t with
    | nil => rfl
    | cons c cs => exact List.dropWhile_cons_of_neg (by simp [ht c List.mem_cons_self])
  rw [trimmed, hkeep s h, hkeep s.reverse fun c hc => h c (List.mem_reverse.1 hc),
    List.reverse_reverse]

theorem trimmed_blanks_append {gap : List Char} (h : ∀ c ∈ gap, isBlank c = true)
    (s : List Char) : trimmed (gap ++ s) = trimmed s := by
  rw [trimmed, List.dropWhile_append_of_pos h, trimmed]

theorem trimmed_append_blanks {gap : List Char} (h : ∀ c ∈ gap, isBlank c = true)
    (s : List Char) : trimmed (s ++ gap) = trimmed s := by
  have hback : ∀ c ∈ gap.reverse, isBlank c = true := fun c hc => h c (List.mem_reverse.1 hc)
  rw [trimmed, trimmed, List.dropWhile_append]
  split
  · next hempty =>
      have hgap : gap.dropWhile isBlank = [] := List.dropWhile_eq_nil_iff.2 h
      rw [hgap, List.isEmpty_iff.1 hempty]
  · rw [List.reverse_append, List.dropWhile_append_of_pos hback]

theorem exists_trimmed_cons {a : Char} (ha : isBlank a = false) (s : List Char) :
    ∃ rest, trimmed (a :: s) = a :: rest := by
  have hfront : (a :: s).dropWhile isBlank = a :: s := List.dropWhile_cons_of_neg (by simp [ha])
  have hself : [a].dropWhile isBlank = [a] := List.dropWhile_cons_of_neg (by simp [ha])
  rw [trimmed, hfront, List.reverse_cons, List.dropWhile_append, hself]
  split
  · exact ⟨[], rfl⟩
  · exact ⟨(s.reverse.dropWhile isBlank).reverse, by rw [List.reverse_append]; rfl⟩

end PackageScript.Text
