import PackageScript.Command.Run
import PackageScript.Host.Detached
import PackageScript.Proofs.Command.HexValues
import PackageScript.Proofs.Glob

set_option autoImplicit false

/-! # What a replacement in a binary file asks for

A replacement prepares three values before it asks for anything: what to find, what to put there,
and which occurrence is meant. If one of them is malformed, nothing is asked and nothing has
changed; otherwise the patcher is asked once (`replacement_asks_once`).

Two texts are brought to one length by two loops, of which at most one has something to do. Each
turn adds a byte, two digits at a time, so a loop that starts below an even number of digits with an
even number of them ends right there (`Spells.padTo`), and after it the other one has nothing left
to do.
-/

namespace PackageScript

namespace HexForm

/-! ## Padding -/

theorem Spells.zero {digits : String} {bytes : List UInt8} (h : Spells digits bytes) :
    Spells (digits ++ "00") (bytes ++ [0]) :=
  h.append (spells_hexOfByte 0)

/-- **A padding loop ends right at its mark**, with zero bytes behind the bytes that it began
with, or does nothing. -/
theorem Spells.padTo {digits : String} {bytes : List UInt8} (h : Spells digits bytes)
    (count : Nat) : Spells (padTo (2 * count) digits)
      (bytes ++ List.replicate (count - bytes.length) 0) := by
  induction hmissing : count - bytes.length generalizing digits bytes with
  | zero =>
      rw [HexForm.padTo, if_neg (by rw [h.length]; omega), List.replicate_zero, List.append_nil]
      exact h
  | succ missing ih =>
      have hbytes : count - (bytes ++ [0]).length = missing := by
        rw [List.length_append, List.length_singleton]
        omega
      rw [HexForm.padTo, if_pos (by rw [h.length]; omega), List.replicate_succ, List.append_cons]
      exact ih h.zero hbytes

/-- **Two texts are brought to one length**, that of the longer one. -/
theorem spells_pad {find replace : String} {old new : List UInt8} (hfind : Spells find old)
    (hreplace : Spells replace new) :
    ∃ i j, Spells (pad .text find replace).1 (old ++ List.replicate i 0)
      ∧ Spells (pad .text find replace).2 (new ++ List.replicate j 0)
      ∧ (pad .text find replace).1.length = 2 * max old.length new.length
      ∧ (pad .text find replace).2.length = 2 * max old.length new.length := by
  -- The second loop goes by what the first one made of the other text.
  have hnew := hreplace.padTo old.length
  have hnewLength : (padTo find.length replace).length = 2 * max old.length new.length := by
    rw [hfind.length, hnew.length, List.length_append, List.length_replicate]
    omega
  have hold := hfind.padTo (max old.length new.length)
  have holdLength : (padTo (padTo find.length replace).length find).length
      = 2 * max old.length new.length := by
    rw [hnewLength, hold.length, List.length_append, List.length_replicate]
    omega
  rw [← hfind.length] at hnew
  rw [← hnewLength] at hold
  exact ⟨_, _, hold, hnew, holdLength, hnewLength⟩

/-! ## Values -/

/-- A value can be written in a form: any text, and of the numbers those of 64 bits. -/
def Takes (form : HexForm) (arg : String) : Prop :=
  match form with
  | .digits | .text => True
  | .decimal | .reversed => ∃ n, Text.DenotesWord (Text.unquote arg) n

/-- Digits stand for the bytes, in some order, of the number that an argument denotes. -/
def WritesNumber (order : List UInt8 → List UInt8) (arg digits : String) : Prop :=
  ∃ n bytes, Text.DenotesWord (Text.unquote arg) n ∧ IsBytesOf n bytes
    ∧ Spells digits (order bytes)

/-- **What the two values of a replacement are handed over as.** Digits stay as they are. Texts are
their bytes and then zeros, both with the length of the longer one. Numbers are their bytes, the
highest first, or reversed the lowest first. -/
def HandsOver (form : HexForm) (find replace digits others : String) : Prop :=
  match form with
  | .digits => digits = Text.unquote find ∧ others = Text.unquote replace
  | .text =>
      let size := max (Text.unquote find).utf8ByteSize (Text.unquote replace).utf8ByteSize
      digits.length = 2 * size ∧ others.length = 2 * size
        ∧ ∃ i j, Spells digits ((Text.unquote find).toUTF8.toList ++ List.replicate i 0)
          ∧ Spells others ((Text.unquote replace).toUTF8.toList ++ List.replicate j 0)
  | .decimal => WritesNumber id find digits ∧ WritesNumber id replace others
  | .reversed => WritesNumber List.reverse find digits ∧ WritesNumber List.reverse replace others

theorem encode_of_takes {form : HexForm} {arg : String} (h : form.Takes arg) :
    ∃ digits, form.encode arg = .ok digits := by
  cases form with
  | digits | text => exact ⟨_, rfl⟩
  | decimal =>
      obtain ⟨n, hn⟩ := h
      exact ⟨_, (ofDecimal_of_denotes hn).1⟩
  | reversed =>
      obtain ⟨n, hn⟩ := h
      exact ⟨_, (ofDecimal_of_denotes hn).2⟩

theorem encode_of_not_takes {form : HexForm} {arg : String} (h : ¬ form.Takes arg) :
    form.encode arg = .error (.notDecimal (Text.unquote arg)) := by
  cases form with
  | digits | text => exact absurd trivial h
  | decimal => exact (ofDecimal_of_not_denotes h).1
  | reversed => exact (ofDecimal_of_not_denotes h).2

theorem writesNumber_hexOfBytes {arg : String} {n : Nat}
    (h : Text.DenotesWord (Text.unquote arg) n) (order : List UInt8 → List UInt8) :
    WritesNumber order arg (hexOfBytes (order (bytesOfWord n))) :=
  ⟨n, _, h, isBytesOf_bytesOfWord h.1, spells_hexOfBytes _⟩

theorem length_bytes (text : String) : text.toUTF8.toList.length = text.utf8ByteSize := by
  rw [toList_bytes, Array.length_toList]
  rfl

/-- **Two written values are handed over as the form says.** -/
theorem handsOver_pad {form : HexForm} {find replace digits others : String}
    (hfind : form.encode find = .ok digits) (hreplace : form.encode replace = .ok others)
    (htakes : form.Takes find) (htakesToo : form.Takes replace) :
    form.HandsOver find replace (form.pad digits others).1 (form.pad digits others).2 := by
  cases form with
  | digits => exact ⟨(Except.ok.inj hfind).symm, (Except.ok.inj hreplace).symm⟩
  | text =>
      obtain rfl := Except.ok.inj hfind
      obtain rfl := Except.ok.inj hreplace
      obtain ⟨i, j, hold, hnew, hlength, hlengthToo⟩ :=
        spells_pad (spells_hexOfBytes (Text.unquote find).toUTF8.toList)
          (spells_hexOfBytes (Text.unquote replace).toUTF8.toList)
      rw [length_bytes, length_bytes] at hlength hlengthToo
      exact ⟨hlength, hlengthToo, i, j, hold, hnew⟩
  | decimal =>
      obtain ⟨n, hn⟩ := htakes
      obtain ⟨m, hm⟩ := htakesToo
      obtain rfl := Except.ok.inj ((ofDecimal_of_denotes hn).1.symm.trans hfind)
      obtain rfl := Except.ok.inj ((ofDecimal_of_denotes hm).1.symm.trans hreplace)
      exact ⟨writesNumber_hexOfBytes hn id, writesNumber_hexOfBytes hm id⟩
  | reversed =>
      obtain ⟨n, hn⟩ := htakes
      obtain ⟨m, hm⟩ := htakesToo
      obtain rfl := Except.ok.inj ((ofDecimal_of_denotes hn).2.symm.trans hfind)
      obtain rfl := Except.ok.inj ((ofDecimal_of_denotes hm).2.symm.trans hreplace)
      exact ⟨writesNumber_hexOfBytes hn List.reverse, writesNumber_hexOfBytes hm List.reverse⟩

/-- The operation that replaces values of a form. -/
def replacing : HexForm → Op
  | .digits => .hexBySwap
  | .text => .hexByString
  | .decimal => .hexByDecimal
  | .reversed => .hexByReversedDecimal

end HexForm

/-! ## Requests -/

namespace Action

/-- The requests that were made once an action has ended, however it ends. -/
def requestsAfter {α : Type} (act : Action α) (w : World) : List Request :=
  match act w with
  | .ok _ w' => w'.requests
  | .error _ w' => w'.requests

theorem requestsAfter_thenPure {α β : Type} (act : Action α) (b : β) (w : World) :
    (do let _ ← act; pure b : Action β).requestsAfter w = act.requestsAfter w := by
  show requestsAfter (EStateM.bind act fun _ => EStateM.pure b) w = _
  rw [requestsAfter, EStateM.bind, requestsAfter]
  cases act w <;> rfl

end Action

namespace Setting

variable (s : Setting)

/-- Something that must not fail is asked once, whether it fails or not. -/
theorem requestsAfter_require (r : Request) (e : ScriptError) (w : World) :
    (s.require r e).requestsAfter w = w.requests ++ [r] := by
  have hrun : s.require r e w = if (w.ask s.host r).1 then .ok () (w.ask s.host r).2
      else .error e (w.ask s.host r).2 := by
    unfold require
    show EStateM.bind (Action.request s.host r)
      (fun succeeded => if succeeded then pure () else Action.fail e) w = _
    rw [EStateM.bind, Action.request]
    dsimp only
    cases (w.ask s.host r).1 <;> rfl
  rw [Action.requestsAfter, hrun]
  cases (w.ask s.host r).1 <;> rfl

/-- The occurrence that the last argument asks for: all of them if there is none, and else the
number that it denotes, between quotes or without. -/
def AsksFor : List String → Nat → Prop
  | [], n => n = 0
  | arg :: _, n => Text.DenotesWord (Text.unquote arg) n

theorem occurrence_of_asksFor {rest : List String} {n : Nat} (h : AsksFor rest n) :
    occurrence rest = .ok n := by
  cases rest with
  | nil => exact congrArg Except.ok h.symm
  | cons arg _ =>
      unfold occurrence
      dsimp only
      rw [Text.wordOf?_trim_eq_some_iff.2 h]

theorem occurrence_of_not_asksFor {rest : List String} (h : ¬ ∃ n, AsksFor rest n) :
    ∃ arg, occurrence rest = .error (.badOccurrence arg) := by
  cases rest with
  | nil => exact absurd ⟨0, rfl⟩ h
  | cons arg _ =>
      refine ⟨arg, ?_⟩
      unfold occurrence
      dsimp only
      rw [Text.wordOf?_trim_eq_none_iff.2 h]

/-- **A replacement is well formed**: both values can be written, and the occurrence is a
number. -/
structure WellFormed (form : HexForm) (find replace : String) (rest : List String) : Prop where
  find : form.Takes find
  replace : form.Takes replace
  occurrence : ∃ n, AsksFor rest n

variable {form : HexForm} {file find replace : String} {rest : List String}

theorem hexReplace_of_wellFormed (h : WellFormed form find replace rest) :
    ∃ n digits others, AsksFor rest n ∧ form.HandsOver find replace digits others
      ∧ s.hexReplace form file find replace rest
        = s.require (.hexReplace (s.locate file) digits others n)
          (.failedFor "hex find/replace" (scriptPath file)) := by
  obtain ⟨digits, hfind⟩ := HexForm.encode_of_takes h.find
  obtain ⟨others, hreplace⟩ := HexForm.encode_of_takes h.replace
  obtain ⟨n, hn⟩ := h.occurrence
  refine ⟨n, _, _, hn, HexForm.handsOver_pad hfind hreplace h.find h.replace, ?_⟩
  rw [hexReplace, hfind, hreplace, occurrence_of_asksFor hn]
  rfl

theorem hexReplace_of_not_wellFormed (h : ¬ WellFormed form find replace rest) :
    ∃ what, s.hexReplace form file find replace rest = throw (.of (.malformed what)) := by
  by_cases hold : form.Takes find
  · obtain ⟨digits, hfind⟩ := HexForm.encode_of_takes hold
    by_cases hnew : form.Takes replace
    · obtain ⟨others, hreplace⟩ := HexForm.encode_of_takes hnew
      obtain ⟨arg, hocc⟩ := occurrence_of_not_asksFor fun hn => h ⟨hold, hnew, hn⟩
      exact ⟨_, by rw [hexReplace, hfind, hreplace, hocc]; rfl⟩
    · exact ⟨_, by rw [hexReplace, hfind, HexForm.encode_of_not_takes hnew]; rfl⟩
  · exact ⟨_, by rw [hexReplace, HexForm.encode_of_not_takes hold]; rfl⟩

theorem run_replacing (w : World) :
    s.run form.replacing (file :: find :: replace :: rest) w
      = (do s.hexReplace form file find replace rest; pure true : Action Bool) w := by
  cases form <;> rfl

variable (form file find replace rest)

/-- **A replacement asks once or not at all.** Where both values can be written and the occurrence
is a number, the patcher is asked once, for that occurrence, with the values as the form hands them
over. Where not, nothing is asked and nothing has changed, and the command is refused as
malformed. -/
theorem replacement_asks_once (w : World) :
    (WellFormed form find replace rest → ∃ n digits others,
        AsksFor rest n ∧ form.HandsOver find replace digits others
          ∧ (s.run form.replacing (file :: find :: replace :: rest)).requestsAfter w
            = w.requests ++ [.hexReplace (s.locate file) digits others n])
      ∧ (¬ WellFormed form find replace rest → ∃ what,
        s.run form.replacing (file :: find :: replace :: rest) w
          = .error (.of (.malformed what)) w) := by
  constructor
  · intro h
    obtain ⟨n, digits, others, hn, hvalues, hrun⟩ := s.hexReplace_of_wellFormed h
    refine ⟨n, digits, others, hn, hvalues, ?_⟩
    rw [Action.requestsAfter, run_replacing, ← Action.requestsAfter,
      Action.requestsAfter_thenPure, hrun, requestsAfter_require]
  · intro h
    obtain ⟨what, hrun⟩ := s.hexReplace_of_not_wellFormed h
    refine ⟨what, ?_⟩
    rw [run_replacing, hrun]
    rfl

def unanswered : Setting := ⟨.withRoot ⟨"sd"⟩, .detached .erista, "sd/", "o"⟩

/-- The second occurrence of a text of two bytes, and a value that is no number. -/
theorem replacement_of_texts_asks_once :
    (∃ digits others, HexForm.HandsOver .text "'é'" "abc" digits others
        ∧ (unanswered.run .hexByString ["sdmc:/f", "'é'", "abc", "2"]).requestsAfter
            (.ofFiles (.empty []))
          = [.hexReplace (unanswered.locate "sdmc:/f") digits others 2])
      ∧ ∃ what, unanswered.run .hexByDecimal ["sdmc:/f", "1x", "2"] (.ofFiles (.empty []))
          = .error (.of (.malformed what)) (.ofFiles (.empty [])) := by
  have htwo : AsksFor ["2"] 2 := Text.wordOf?_trim_eq_some_iff.1 (by decide +kernel)
  have hrefused : ¬ HexForm.Takes .decimal "1x" :=
    Text.wordOf?_trim_eq_none_iff.1 (by decide +kernel)
  constructor
  · obtain ⟨n, digits, others, hn, hvalues, hasked⟩ :=
      (unanswered.replacement_asks_once .text "sdmc:/f" "'é'" "abc" ["2"] (.ofFiles (.empty []))).1
        ⟨trivial, trivial, 2, htwo⟩
    obtain rfl := Text.DenotesWord.unique htwo hn
    exact ⟨digits, others, hvalues, hasked⟩
  · exact (unanswered.replacement_asks_once .decimal "sdmc:/f" "1x" "2" [] (.ofFiles (.empty []))).2
      fun h => hrefused h.find

end Setting

end PackageScript
