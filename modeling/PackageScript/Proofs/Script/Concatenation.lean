import PackageScript.Proofs.Text.Pieces
import PackageScript.Script.Reader

set_option autoImplicit false

/-! # One script below another

The lines of two texts, one put below the other, are the lines of the first and then those of the
second (`linesOf_append`), wherever the first one ends. What stands above every header of the second
text falls to the last option of the first, and apart from that the options of both are side by side
(`ofText_append`). So a text that opens with a header is read on its own, and options are found in
the first text before they are looked for in the second (`ofText_below`).
-/

namespace PackageScript.Script

/-! ## Lines -/

theorem linesOf_append (above below : String) :
    linesOf (above ++ "\n" ++ below) = linesOf above ++ linesOf below := by
  have hchars : (above ++ "\n" ++ below).toList = above.toList ++ '\n' :: below.toList := by simp
  rw [linesOf, hchars, Text.pieces_append_sep, List.filterMap_append]
  rfl

/-- **A text that opens with a header**: the first line that carries something is one, if there is
such a line. -/
def OpensWithHeader (text : String) : Prop :=
  ∀ line, (linesOf text).head? = some line → ∃ name, line = .header name

/-! ## Sections -/

/-- Gives further commands to the last option. Where there is none, they are dropped. -/
def extendLast : Script → Block → Script
  | [], _ => []
  | [o], more => [{ o with commands := o.commands ++ more }]
  | o :: next :: rest, more => o :: extendLast (next :: rest) more

@[simp] theorem extendLast_nil (script : Script) : extendLast script [] = script := by
  induction script with
  | nil => rfl
  | cons o rest ih =>
      cases rest with
      | nil => simp [extendLast]
      | cons next rest => rw [extendLast, ih]

/-- **The sections of lines above other lines.** Command lines that stand above every header of the
lower part belong to the last option of the upper part, and to none if that has none. -/
theorem sections_append (above below : List Line) :
    sections (above ++ below)
      = ((sections above).1 ++ (if (sections above).2.isEmpty then (sections below).1 else []),
        extendLast (sections above).2 ((sections below).1.map tokenize) ++ (sections below).2) := by
  induction above with
  | nil => simp [sections, extendLast]
  | cons line rest ih =>
      rw [List.cons_append, sections, List.foldr_cons, ← sections, ih]
      show _ = ((addLine line (sections rest)).1
          ++ (if (addLine line (sections rest)).2.isEmpty then (sections below).1 else []),
        extendLast (addLine line (sections rest)).2 ((sections below).1.map tokenize)
          ++ (sections below).2)
      cases line with
      | command text => simp [addLine]
      | header name =>
          -- the commands below the header are the header's own if no other header follows
          cases hoptions : (sections rest).2 with
          | nil => simp [addLine, hoptions, extendLast]
          | cons o os => simp [addLine, hoptions, extendLast]

theorem preamble_eq_nil {text : String} (h : OpensWithHeader text) : preamble text = [] := by
  rw [preamble]
  cases hlines : linesOf text with
  | nil => rfl
  | cons line rest =>
      obtain ⟨name, rfl⟩ := h line (by rw [hlines, List.head?_cons])
      rw [sections, List.foldr_cons, ← sections]
      rfl

/-! ## Texts -/

/-- **The options of one text below another.** -/
theorem ofText_append (above below : String) :
    ofText (above ++ "\n" ++ below)
      = extendLast (ofText above) ((preamble below).map tokenize) ++ ofText below := by
  rw [ofText, linesOf_append, sections_append]
  rfl

/-- **A text that opens with a header is read on its own**, whatever stands above it, and a name is
looked for in the upper text first. -/
theorem ofText_below (above : String) {below : String} (hheader : OpensWithHeader below) :
    ofText (above ++ "\n" ++ below) = ofText above ++ ofText below
      ∧ ∀ name, option? (ofText (above ++ "\n" ++ below)) name
        = match option? (ofText above) name with
          | some o => some o
          | none => option? (ofText below) name := by
  have happend : ofText (above ++ "\n" ++ below) = ofText above ++ ofText below := by
    rw [ofText_append, preamble_eq_nil hheader, List.map_nil, extendLast_nil]
  refine ⟨happend, fun name => ?_⟩
  rw [happend, option?, List.find?_append]
  show Option.or (option? (ofText above) name) (option? (ofText below) name) = _
  cases option? (ofText above) name <;> rfl

/-- An upper text that ends in a carriage return, in an option without commands, and a lower one
that opens with a remark above its header and repeats a name. -/
theorem ofText_below_carriage_return :
    OpensWithHeader "# again\n[A]\nlogging"
      ∧ ofText ("refresh\n[A]\nmake x\n[B]\r" ++ "\n" ++ "# again\n[A]\nlogging")
        = [⟨"A", [["make", "x"]]⟩, ⟨"B", []⟩, ⟨"A", [["logging"]]⟩]
      ∧ option? (ofText ("refresh\n[A]\nmake x\n[B]\r" ++ "\n" ++ "# again\n[A]\nlogging")) "A"
        = some ⟨"A", [["make", "x"]]⟩ := by
  have hlines : linesOf "# again\n[A]\nlogging" = [.header "A", .command "logging"] := by
    decide +kernel
  have hheader : OpensWithHeader "# again\n[A]\nlogging" := by
    intro line hline
    rw [hlines, List.head?_cons] at hline
    exact ⟨"A", (Option.some.inj hline).symm⟩
  have habove : ofText "refresh\n[A]\nmake x\n[B]\r" = [⟨"A", [["make", "x"]]⟩, ⟨"B", []⟩] := by
    decide +kernel
  have hbelow : ofText "# again\n[A]\nlogging" = [⟨"A", [["logging"]]⟩] := by decide +kernel
  obtain ⟨hread, hfind⟩ := ofText_below "refresh\n[A]\nmake x\n[B]\r" hheader
  refine ⟨hheader, ?_, ?_⟩
  · rw [hread, habove, hbelow]
    rfl
  · rw [hfind, habove]
    rfl

end PackageScript.Script
