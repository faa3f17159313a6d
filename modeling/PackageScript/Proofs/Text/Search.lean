import Mathlib.Data.List.Infix
import PackageScript.Text.Search

set_option autoImplicit false

/-! # Where a text is first found

A search passes over everything that the needle cannot start in. A text that lacks the first
character of the needle, put in front of another one, moves the first occurrence and neither
adds nor takes one (`cutAt?_append_of_not_mem`, `countFrom_append_of_not_mem`).
-/

namespace PackageScript.Text

def prepend (front : List Char) (cut : List Char × List Char) : List Char × List Char :=
  (front ++ cut.1, cut.2)

theorem map_prepend_append (a b : List Char) (cut : Option (List Char × List Char)) :
    (cut.map (prepend b)).map (prepend a) = cut.map (prepend (a ++ b)) := by
  cases cut with
  | none => rfl
  | some cut => simp only [Option.map_some, prepend, List.append_assoc]

/-! ## The beginning -/

theorem dropStart?_append (needle s : List Char) : dropStart? needle (needle ++ s) = some s :=
  dropStart?_eq_some_iff.2 rfl

theorem dropStart?_cons_of_ne {a c : Char} (h : a ≠ c) (as s : List Char) :
    dropStart? (a :: as) (c :: s) = none := by
  rw [dropStart?, if_neg h]

/-! ## The first occurrence -/

theorem cutAt?_append (a : Char) (as s : List Char) :
    cutAt? (a :: as) (a :: as ++ s) = some ([], s) := by
  rw [List.cons_append, cutAt?, ← List.cons_append, dropStart?_append]

theorem cutAt?_cons_of_none {needle s : List Char} {c : Char}
    (h : dropStart? needle (c :: s) = none) :
    cutAt? needle (c :: s) = (cutAt? needle s).map (prepend [c]) := by
  rw [cutAt?, h]
  rfl

theorem cutAt?_append_of_not_mem {a : Char} (as : List Char) {w : List Char} (h : a ∉ w)
    (s : List Char) : cutAt? (a :: as) (w ++ s) = (cutAt? (a :: as) s).map (prepend w) := by
  induction w with
  | nil =>
      rw [List.nil_append]
      cases cutAt? (a :: as) s <;> rfl
  | cons c cs ih =>
      obtain ⟨hc, hcs⟩ := List.ne_and_not_mem_of_not_mem_cons h
      rw [List.cons_append, cutAt?_cons_of_none (dropStart?_cons_of_ne hc as _), ih hcs,
        map_prepend_append]
      rfl

/-- Two different characters one after the other are found right behind a text in which they do
not follow one another. -/
theorem cutAt?_pair {a b : Char} (hab : a ≠ b) {w : List Char} (h : ¬ [a, b] <:+: w)
    (s : List Char) : cutAt? [a, b] (w ++ ([a, b] ++ s)) = some (w, s) := by
  induction w with
  | nil => exact cutAt?_append a [b] s
  | cons c cs ih =>
      have hnone : dropStart? [a, b] (c :: (cs ++ ([a, b] ++ s))) = none := by
        refine Option.eq_none_iff_forall_ne_some.2 fun rest hrest => ?_
        obtain ⟨hc, hcs⟩ := List.cons.inj (dropStart?_eq_some_iff.1 hrest)
        cases cs with
        | nil => exact hab (List.cons.inj hcs).1
        | cons d ds =>
            obtain ⟨hd, -⟩ := List.cons.inj hcs
            exact h ⟨[], ds, by rw [hc, hd]; rfl⟩
      have hcs : ¬ [a, b] <:+: cs := fun hin => h (hin.trans (List.infix_cons (List.infix_refl cs)))
      rw [List.cons_append, cutAt?_cons_of_none hnone, ih hcs]
      rfl

/-- A cut is made at the first occurrence: the text before it has none. -/
theorem not_infix_of_cutAt? {needle s before after : List Char} (hne : needle ≠ [])
    (h : cutAt? needle s = some (before, after)) : ¬ needle <:+: before := by
  induction s generalizing before with
  | nil =>
      cases needle with
      | nil => exact absurd rfl hne
      | cons a as => cases h
  | cons c cs ih =>
      cases hdrop : dropStart? needle (c :: cs) with
      | some rest =>
          rw [cutAt?, hdrop, Option.some_inj, Prod.mk.injEq] at h
          rw [← h.1, List.infix_nil]
          exact hne
      | none =>
          rw [cutAt?_cons_of_none hdrop] at h
          obtain ⟨⟨front, behind⟩, hcut, heq⟩ := Option.map_eq_some_iff.1 h
          obtain ⟨rfl, rfl⟩ := Prod.mk.inj heq
          intro hin
          rcases List.infix_cons_iff.1 hin with hstart | hrest
          · have hall : needle <+: c :: cs :=
              hstart.trans ⟨needle ++ behind, by rw [eq_of_cutAt? hcut]; simp⟩
            obtain ⟨tail, htail⟩ := hall
            rw [dropStart?_eq_some_iff.2 htail.symm] at hdrop
            cases hdrop
          · exact ih hcut hrest

theorem occursIn_iff {needle s : List Char} : occursIn needle s = true ↔ needle <:+: s := by
  rw [occursIn]
  constructor
  · intro h
    obtain ⟨⟨before, after⟩, hcut⟩ := Option.isSome_iff_exists.1 h
    exact ⟨before, after, (eq_of_cutAt? hcut).symm⟩
  · intro h
    induction s with
    | nil => rw [List.infix_nil.1 h]; rfl
    | cons c cs ih =>
        cases hdrop : dropStart? needle (c :: cs) with
        | some rest => rw [cutAt?, hdrop]; rfl
        | none =>
            rw [cutAt?_cons_of_none hdrop, Option.isSome_map]
            refine ih ((List.infix_cons_iff.1 h).resolve_left ?_)
            rintro ⟨rest, hrest⟩
            rw [dropStart?_eq_some_iff.2 hrest.symm] at hdrop
            cases hdrop

/-! ## The number of occurrences -/

/-- What an occurrence covers is not searched again. -/
theorem countFrom_length_append (needle w s : List Char) :
    countFrom needle w.length (w ++ s) = countFrom needle 0 s := by
  induction w with
  | nil => rfl
  | cons c cs ih => rw [List.length_cons, List.cons_append, countFrom, ih]

theorem countFrom_append (a : Char) (as s : List Char) :
    countFrom (a :: as) 0 (a :: as ++ s) = countFrom (a :: as) 0 s + 1 := by
  have hfound : (dropStart? (a :: as) (a :: (as ++ s))).isSome = true := by
    rw [← List.cons_append, dropStart?_append]
    rfl
  rw [List.cons_append, countFrom, if_pos hfound, List.length_cons, Nat.add_sub_cancel,
    countFrom_length_append]

theorem countFrom_cons_of_none {needle s : List Char} {c : Char}
    (h : dropStart? needle (c :: s) = none) :
    countFrom needle 0 (c :: s) = countFrom needle 0 s := by
  rw [countFrom, h, if_neg (by simp)]

theorem countFrom_append_of_not_mem {a : Char} (as : List Char) {w : List Char} (h : a ∉ w)
    (s : List Char) : countFrom (a :: as) 0 (w ++ s) = countFrom (a :: as) 0 s := by
  induction w with
  | nil => rfl
  | cons c cs ih =>
      obtain ⟨hc, hcs⟩ := List.ne_and_not_mem_of_not_mem_cons h
      rw [List.cons_append, countFrom_cons_of_none (dropStart?_cons_of_ne hc as _), ih hcs]

end PackageScript.Text
