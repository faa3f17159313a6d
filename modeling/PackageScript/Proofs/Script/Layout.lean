import Mathlib.Logic.Relation
import PackageScript.Proofs.Script.Concatenation

set_option autoImplicit false

/-! # The layout of a script

How a script is laid out says nothing: lines that carry nothing may stand between any two lines,
lines may have blanks at both of their ends, and line ends may have a carriage return in front. One
change of this kind is `Relaid`, and any number of them, one after the other, keeps every line that
carries something (`linesOf_relaid_all`), so the options too (`ofText_relaid`).

A quote that is never closed makes no difference. Lines are cut and trimmed before the quotes in
them are looked at, so an open span ends where its line ends, and the blanks behind it are gone by
then.
-/

namespace PackageScript.Script

/-! ## Places and lines -/

/-- Nothing of a line stands in front yet. -/
def AtLineStart (above : String) : Prop := above = "" ∨ ∃ front, above = front ++ "\n"

/-- A line ends here, with the text or with a line end of either kind. -/
def AtLineEnd (below : String) : Prop :=
  below = "" ∨ ∃ rest, below = "\n" ++ rest ∨ below = "\r\n" ++ rest

/-- Blanks within one line. -/
structure IsGap (gap : String) : Prop where
  blank : ∀ c ∈ gap.toList, Text.isBlank c = true
  no_newline : '\n' ∉ gap.toList

instance (gap : String) : Decidable (IsGap gap) :=
  decidable_of_iff (gap.toList.all Text.isBlank = true ∧ '\n' ∉ gap.toList)
    ⟨fun h => ⟨List.all_eq_true.1 h.1, h.2⟩, fun h => ⟨List.all_eq_true.2 h.blank, h.no_newline⟩⟩

/-- A line that carries nothing: blanks alone, or blanks and then a remark. -/
inductive IsIdle : String → Prop where
  | blank {gap : String} (hgap : IsGap gap) : IsIdle gap
  | remark {gap text : String} (hgap : IsGap gap) (htext : '\n' ∉ text.toList) :
      IsIdle (gap ++ "#" ++ text)

/-- **One change of the layout** of a text. -/
inductive Relaid : String → String → Prop where
  /-- A line that carries nothing is put above another line, or below the last line end. -/
  | idleLine {above line : String} (below : String) (hplace : AtLineStart above)
      (hline : IsIdle line) : Relaid (above ++ below) (above ++ line ++ "\n" ++ below)
  /-- A line that carries nothing and has no line end is put below the last line end. -/
  | idleLast {above line : String} (hplace : AtLineStart above) (hline : IsIdle line) :
      Relaid above (above ++ line)
  /-- A line that carries nothing is put below a last line, which had no line end. -/
  | idleBelow (above : String) {line : String} (hline : IsIdle line) :
      Relaid above (above ++ "\n" ++ line)
  /-- Blanks are put in front of a line. -/
  | gapBefore {above gap : String} (below : String) (hplace : AtLineStart above)
      (hgap : IsGap gap) : Relaid (above ++ below) (above ++ gap ++ below)
  /-- Blanks are put behind a line. -/
  | gapBehind (above : String) {gap below : String} (hplace : AtLineEnd below)
      (hgap : IsGap gap) : Relaid (above ++ below) (above ++ gap ++ below)
  /-- A line end gets a carriage return. -/
  | lineEnd (above below : String) : Relaid (above ++ "\n" ++ below) (above ++ "\r\n" ++ below)

/-! ## One line -/

theorem ofText?_gap_append {gap : String} (hgap : IsGap gap) (raw : List Char) :
    Line.ofText? (gap.toList ++ raw) = Line.ofText? raw := by
  rw [Line.ofText?, Text.trimmed_blanks_append hgap.blank, Line.ofText?]

theorem ofText?_append_gap {gap : String} (hgap : IsGap gap) (raw : List Char) :
    Line.ofText? (raw ++ gap.toList) = Line.ofText? raw := by
  rw [Line.ofText?, Text.trimmed_append_blanks hgap.blank, Line.ofText?]

theorem IsIdle.no_newline {line : String} (h : IsIdle line) : '\n' ∉ line.toList := by
  cases h with
  | blank hgap => exact hgap.no_newline
  | remark hgap htext => simp [hgap.no_newline, htext]

theorem IsIdle.ofText? {line : String} (h : IsIdle line) : Line.ofText? line.toList = none := by
  cases h with
  | blank hgap =>
      rw [← List.append_nil line.toList, ofText?_gap_append hgap]
      rfl
  | @remark gap text hgap htext =>
      have hremark : (gap ++ "#" ++ text).toList = gap.toList ++ '#' :: text.toList := by simp
      obtain ⟨rest, hrest⟩ := Text.exists_trimmed_cons (by decide : Text.isBlank '#' = false)
        text.toList
      rw [hremark, ofText?_gap_append hgap, Line.ofText?, hrest]
      rfl

/-! ## The lines of a text -/

@[simp] theorem linesOf_empty : linesOf "" = [] := rfl

theorem linesOf_idle {line : String} (h : IsIdle line) : linesOf line = [] := by
  rw [linesOf, Text.pieces_of_not_mem h.no_newline, List.filterMap_cons, h.ofText?]
  rfl

theorem linesOf_gap_append {gap : String} (hgap : IsGap gap) (text : String) :
    linesOf (gap ++ text) = linesOf text := by
  obtain ⟨first, rest, hpieces, hfront⟩ := Text.exists_first_piece '\n' text.toList
  rw [linesOf, String.toList_append, hfront _ hgap.no_newline, List.filterMap_cons,
    ofText?_gap_append hgap, linesOf, hpieces, List.filterMap_cons]

theorem linesOf_append_gap (text : String) {gap : String} (hgap : IsGap gap) :
    linesOf (text ++ gap) = linesOf text := by
  obtain ⟨front, last, hpieces, hbehind⟩ := Text.exists_last_piece '\n' text.toList
  rw [linesOf, String.toList_append, hbehind _ hgap.no_newline, List.filterMap_append,
    List.filterMap_cons, ofText?_append_gap hgap, linesOf, hpieces, List.filterMap_append,
    List.filterMap_cons]

theorem linesOf_atLineStart {above : String} (h : AtLineStart above) (below : String) :
    linesOf (above ++ below) = linesOf above ++ linesOf below := by
  rcases h with rfl | ⟨front, rfl⟩
  · simp
  · -- Behind the last line end stands an empty line, which is read as none.
    have hfront : linesOf (front ++ "\n") = linesOf front := by simpa using linesOf_append front ""
    rw [linesOf_append, hfront]

theorem linesOf_carriageReturn (above below : String) :
    linesOf (above ++ "\r\n" ++ below) = linesOf above ++ linesOf below := by
  have hreturn : IsGap "\r" := by decide
  have hcut : "\r\n" = "\r" ++ "\n" := rfl
  rw [hcut, ← String.append_assoc, linesOf_append, linesOf_append_gap above hreturn]

theorem linesOf_atLineEnd (above : String) {below : String} (h : AtLineEnd below) :
    linesOf (above ++ below) = linesOf above ++ linesOf below := by
  rcases h with rfl | ⟨rest, rfl | rfl⟩
  · simp
  · have hbelow : linesOf ("\n" ++ rest) = linesOf rest := by simpa using linesOf_append "" rest
    rw [hbelow, ← String.append_assoc, linesOf_append]
  · have hbelow : linesOf ("\r\n" ++ rest) = linesOf rest := by
      simpa using linesOf_carriageReturn "" rest
    rw [hbelow, ← String.append_assoc, linesOf_carriageReturn]

/-- **One change of the layout keeps the lines that carry something.** -/
theorem linesOf_relaid {before after : String} (h : Relaid before after) :
    linesOf after = linesOf before := by
  cases h with
  | idleLine below hplace hline =>
      rw [linesOf_append, linesOf_atLineStart hplace, linesOf_idle hline, List.append_nil,
        linesOf_atLineStart hplace]
  | idleLast hplace hline =>
      rw [linesOf_atLineStart hplace, linesOf_idle hline, List.append_nil]
  | idleBelow above hline => rw [linesOf_append, linesOf_idle hline, List.append_nil]
  | gapBefore below hplace hgap =>
      rw [String.append_assoc, linesOf_atLineStart hplace, linesOf_gap_append hgap,
        linesOf_atLineStart hplace]
  | gapBehind above hplace hgap =>
      rw [linesOf_atLineEnd _ hplace, linesOf_append_gap above hgap, linesOf_atLineEnd _ hplace]
  | lineEnd above below => rw [linesOf_carriageReturn, linesOf_append]

theorem linesOf_relaid_all {before after : String}
    (h : Relation.ReflTransGen Relaid before after) : linesOf after = linesOf before := by
  induction h with
  | refl => rfl
  | tail _ hlast ih => rw [linesOf_relaid hlast, ih]

/-! ## The options of a text -/

/-- **The layout of a script does not matter.** However many lines that carry nothing are put
between its lines, blanks at the ends of its lines, and carriage returns in front of its line ends,
in whatever order, the options are the same, and so is what belongs to none of them. -/
theorem ofText_relaid {before after : String} (h : Relation.ReflTransGen Relaid before after) :
    ofText after = ofText before ∧ preamble after = preamble before := by
  have hlines := linesOf_relaid_all h
  exact ⟨by rw [ofText, hlines, ofText], by rw [preamble, hlines, preamble]⟩

/-- A last line with an open quote gets blanks behind it, its header a carriage return, and a remark
with a quote comes between the two. -/
theorem ofText_relaid_open_quote :
    Relation.ReflTransGen Relaid "[A]\nmake 'x y" "[A]\r\n # it's\nmake 'x y \u2003"
      ∧ ofText "[A]\nmake 'x y" = [⟨"A", [["make", "x y"]]⟩]
      ∧ ofText "[A]\r\n # it's\nmake 'x y \u2003" = [⟨"A", [["make", "x y"]]⟩] := by
  have hblanks : Relaid "[A]\nmake 'x y" "[A]\nmake 'x y \u2003" :=
    .gapBehind "[A]\nmake 'x y" (Or.inl rfl) (by decide : IsGap " \u2003")
  have hreturn : Relaid "[A]\nmake 'x y \u2003" "[A]\r\nmake 'x y \u2003" :=
    .lineEnd "[A]" "make 'x y \u2003"
  have hremark : Relaid "[A]\r\nmake 'x y \u2003" "[A]\r\n # it's\nmake 'x y \u2003" :=
    .idleLine "make 'x y \u2003" (Or.inr ⟨"[A]\r", rfl⟩)
      (.remark (by decide : IsGap " ") (by decide : '\n' ∉ " it's".toList))
  have hall := ((Relation.ReflTransGen.single hblanks).tail hreturn).tail hremark
  have hread : ofText "[A]\nmake 'x y" = [⟨"A", [["make", "x y"]]⟩] := by decide +kernel
  exact ⟨hall, hread, (ofText_relaid hall).1.trans hread⟩

end PackageScript.Script
