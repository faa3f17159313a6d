import PackageScript.Proofs.Text.Pieces
import PackageScript.Script.Printer
import PackageScript.Script.Reader

set_option autoImplicit false

/-! # Scripts that can be written

Not every list of options is what some text says: a name ends with its line, and a token holds
neither the quote around it nor a line end, and is not empty. These are the only limits. Within
them the printed form of a script reads back as that script, whatever else its names and tokens
hold (`ofText_print`), and outside them no text does (`ofText_printable`).
-/

namespace PackageScript.Script

/-- **What one token can be**: not empty, without the quote around it, and on one line. -/
structure IsToken (t : String) : Prop where
  ne_empty : t ≠ ""
  no_quote : '\'' ∉ t.toList
  no_newline : '\n' ∉ t.toList

/-- **The scripts that a text can hold.** Names may be empty, bodies and commands too, and names
may repeat. -/
structure Printable (script : Script) : Prop where
  name : ∀ o ∈ script, '\n' ∉ o.name.toList
  token : ∀ o ∈ script, ∀ c ∈ o.commands, ∀ t ∈ c, IsToken t

theorem printable_nil : Printable [] := ⟨by simp, by simp⟩

theorem printable_cons {o : ScriptOption} {rest : Script} :
    Printable (o :: rest) ↔
      ('\n' ∉ o.name.toList ∧ ∀ c ∈ o.commands, ∀ t ∈ c, IsToken t) ∧ Printable rest := by
  constructor
  · intro h
    exact ⟨⟨h.name o List.mem_cons_self, h.token o List.mem_cons_self⟩,
      ⟨fun p hp => h.name p (List.mem_cons_of_mem _ hp),
        fun p hp => h.token p (List.mem_cons_of_mem _ hp)⟩⟩
  · rintro ⟨⟨hname, htoken⟩, hrest⟩
    refine ⟨fun p hp => ?_, fun p hp => ?_⟩
    · rcases List.mem_cons.1 hp with rfl | hp
      · exact hname
      · exact hrest.name p hp
    · rcases List.mem_cons.1 hp with rfl | hp
      · exact htoken
      · exact hrest.token p hp

/-! ## Tokens of a printed command -/

theorem tokens_span (gap : List Char) {span : List Char} (hgap : Text.words gap = [])
    (hquote : '\'' ∉ gap) (hne : span ≠ []) (hspan : '\'' ∉ span) (rest : List Char) :
    tokens (gap ++ '\'' :: (span ++ '\'' :: rest)) = span :: tokens rest := by
  have hempty : span.isEmpty = false := List.isEmpty_eq_false_iff.2 hne
  rw [tokens, Text.pieces_append_sep, Text.pieces_append_sep, Text.pieces_of_not_mem hquote,
    Text.pieces_of_not_mem hspan, List.singleton_append, List.singleton_append, tokensOfPieces,
    tokensOfPieces, hgap, hempty]
  rfl

def furtherSpans (ts : List String) : List Char :=
  ts.flatMap fun t => ' ' :: '\'' :: (t.toList ++ ['\''])

theorem tokens_furtherSpans {ts : List String} (h : ∀ t ∈ ts, IsToken t) :
    tokens (furtherSpans ts) = ts.map String.toList := by
  induction ts with
  | nil => rfl
  | cons t rest ih =>
      have ht := h t List.mem_cons_self
      have hrest := ih fun s hs => h s (List.mem_cons_of_mem _ hs)
      have hspan := tokens_span [' '] (by decide) (by decide)
        (mt String.toList_eq_nil_iff.1 ht.ne_empty) ht.no_quote (furtherSpans rest)
      rw [List.map_cons, ← hrest, ← hspan]
      simp [furtherSpans]

theorem toList_printCommand_cons (t : String) (ts : List String) :
    (printCommand (t :: ts)).toList = '\'' :: (t.toList ++ '\'' :: furtherSpans ts) := by
  have hspans : ∀ (t : String) (ts : List String),
      [' '].intercalate (((t :: ts).map fun s => "'" ++ s ++ "'").map String.toList)
        = '\'' :: (t.toList ++ '\'' :: furtherSpans ts) := by
    intro t ts
    induction ts generalizing t with
    | nil => simp [furtherSpans]
    | cons s rest ih =>
        rw [List.map_cons, List.map_cons, List.map_cons, List.map_cons,
          List.intercalate_cons_cons, ← List.map_cons (f := String.toList),
          ← List.map_cons (f := fun s => "'" ++ s ++ "'"), ih s]
        simp [furtherSpans]
  rw [printCommand, if_neg (by simp), String.toList_intercalate]
  exact hspans t ts

/-- **A printed command reads back as its tokens.** -/
theorem tokenize_printCommand {c : Command} (h : ∀ t ∈ c, IsToken t) :
    tokenize (printCommand c) = c := by
  cases c with
  | nil => decide +kernel
  | cons t ts =>
      have ht := h t List.mem_cons_self
      have hspan := tokens_span [] (by decide) (by decide)
        (mt String.toList_eq_nil_iff.1 ht.ne_empty) ht.no_quote (furtherSpans ts)
      rw [List.nil_append, tokens_furtherSpans fun s hs => h s (List.mem_cons_of_mem _ hs)] at hspan
      rw [tokenize, toList_printCommand_cons, hspan]
      simp [Function.comp_def]

/-! ## Lines of a printed script -/

theorem printCommand_quoted (c : Command) :
    ∃ inner, (printCommand c).toList = '\'' :: (inner ++ ['\'']) := by
  cases c with
  | nil => exact ⟨[], by decide +kernel⟩
  | cons t ts =>
      rw [toList_printCommand_cons]
      rcases List.eq_nil_or_concat ts with rfl | ⟨front, last, rfl⟩
      · exact ⟨t.toList, by simp [furtherSpans]⟩
      · exact ⟨t.toList ++ '\'' :: furtherSpans front ++ ' ' :: '\'' :: last.toList,
          by simp [furtherSpans]⟩

theorem newline_not_mem_printCommand {c : Command} (h : ∀ t ∈ c, IsToken t) :
    '\n' ∉ (printCommand c).toList := by
  have hspans : ∀ ts : List String, (∀ t ∈ ts, IsToken t) → '\n' ∉ furtherSpans ts := by
    intro ts hts hmem
    obtain ⟨t, ht, hmem⟩ := List.mem_flatMap.1 hmem
    simp [(hts t ht).no_newline] at hmem
  cases c with
  | nil => decide +kernel
  | cons t ts =>
      have hfirst := (h t List.mem_cons_self).no_newline
      have hfurther := hspans ts fun s hs => h s (List.mem_cons_of_mem _ hs)
      rw [toList_printCommand_cons]
      simp [hfirst, hfurther]

theorem ofText?_header (name : List Char) :
    Line.ofText? ('[' :: (name ++ [']'])) = some (.header (String.ofList name)) := by
  rw [Line.ofText?, Text.trimmed_wrap (by decide) (by decide)]
  simp

theorem ofText?_printCommand (c : Command) :
    Line.ofText? (printCommand c).toList = some (.command (printCommand c)) := by
  obtain ⟨inner, hinner⟩ := printCommand_quoted c
  have hcommand : String.ofList ('\'' :: (inner ++ ['\''])) = printCommand c := by
    rw [← hinner, String.ofList_toList]
  rw [Line.ofText?, hinner, Text.trimmed_wrap (by decide) (by decide), ← hcommand]
  rfl

def printedLines (o : ScriptOption) : List String :=
  ("[" ++ o.name ++ "]") :: o.commands.map printCommand

theorem toList_print (script : Script) :
    (print script).toList
      = ((script.flatMap printedLines).map String.toList).flatMap (· ++ ['\n']) := by
  induction script with
  | nil => rfl
  | cons o rest ih =>
      rw [print, List.map_cons, String.join_cons, String.toList_append, ← print, ih]
      simp [printOption, printedLines, String.toList_join, List.flatMap_map]

def readLines (o : ScriptOption) : List Line :=
  .header o.name :: o.commands.map fun c => .command (printCommand c)

/-- **The lines of a printed script are the headers and the commands of its options.** -/
theorem linesOf_print {script : Script} (h : Printable script) :
    linesOf (print script) = script.flatMap readLines := by
  have hlines : ∀ line ∈ (script.flatMap printedLines).map String.toList, '\n' ∉ line := by
    intro line hline
    obtain ⟨text, htext, rfl⟩ := List.mem_map.1 hline
    obtain ⟨o, ho, htext⟩ := List.mem_flatMap.1 htext
    rcases List.mem_cons.1 htext with rfl | htext
    · simp [String.toList_append, h.name o ho]
    · obtain ⟨c, hc, rfl⟩ := List.mem_map.1 htext
      exact newline_not_mem_printCommand (h.token o ho c hc)
  have hread : ∀ o : ScriptOption,
      ((printedLines o).map String.toList).filterMap Line.ofText? = readLines o := by
    intro o
    have hheader : ("[" ++ o.name ++ "]").toList = '[' :: (o.name.toList ++ [']']) := by
      simp [String.toList_append]
    rw [printedLines, List.map_cons, hheader, List.filterMap_cons, ofText?_header,
      String.ofList_toList, readLines]
    simp [List.filterMap_map, Function.comp_def, ofText?_printCommand]
  rw [linesOf, toList_print, Text.pieces_flatMap_concat hlines, List.filterMap_append,
    List.map_flatMap, List.filterMap_flatMap]
  simp only [hread]
  exact List.append_nil _

/-! ## Reading the lines back -/

theorem sections_commands (texts : List String) (lines : List Line) :
    sections (texts.map Line.command ++ lines)
      = (texts ++ (sections lines).1, (sections lines).2) := by
  induction texts with
  | nil => rfl
  | cons text rest ih =>
      rw [List.map_cons, List.cons_append, sections, List.foldr_cons, ← sections, ih]
      rfl

theorem sections_readLines {o : ScriptOption} (h : ∀ c ∈ o.commands, ∀ t ∈ c, IsToken t)
    {lines : List Line} (hlines : (sections lines).1 = []) :
    sections (readLines o ++ lines) = ([], o :: (sections lines).2) := by
  have htexts : o.commands.map (fun c => Line.command (printCommand c))
      = (o.commands.map printCommand).map Line.command := by simp
  have hcommands : (o.commands.map printCommand).map tokenize = o.commands := by
    rw [List.map_map]
    exact (List.map_congr_left fun c hc => tokenize_printCommand (h c hc)).trans (List.map_id _)
  rw [readLines, htexts, List.cons_append, sections, List.foldr_cons, ← sections,
    sections_commands, hlines, List.append_nil, addLine, hcommands]

/-- **A printed script reads back as that script.** -/
theorem ofText_print {script : Script} (h : Printable script) : ofText (print script) = script := by
  have hsections : sections (script.flatMap readLines) = ([], script) := by
    induction script with
    | nil => rfl
    | cons o rest ih =>
        obtain ⟨⟨-, htoken⟩, hrest⟩ := printable_cons.1 h
        have ih := ih hrest
        rw [List.flatMap_cons, sections_readLines htoken (by rw [ih]), ih]
  rw [ofText, linesOf_print h, hsections]

/-! ## What a text can say -/

theorem mem_tokensOfPieces {inside : Bool} {ps : List (List Char)} {t : List Char}
    (h : t ∈ tokensOfPieces inside ps) : ∃ p ∈ ps, ∀ c ∈ t, c ∈ p := by
  induction ps generalizing inside with
  | nil => cases inside <;> cases h
  | cons p rest ih =>
      have hlater : ∀ b, t ∈ tokensOfPieces b rest → ∃ q ∈ p :: rest, ∀ c ∈ t, c ∈ q := by
        intro b hb
        obtain ⟨q, hq, hsub⟩ := ih hb
        exact ⟨q, List.mem_cons_of_mem _ hq, hsub⟩
      cases inside with
      | false =>
          rcases List.mem_append.1 h with h | h
          · exact ⟨p, List.mem_cons_self, Text.mem_of_mem_pieces (List.mem_filter.1 h).1⟩
          · exact hlater true h
      | true =>
          rcases List.mem_append.1 h with h | h
          · split at h
            · cases h
            · rw [List.mem_singleton.1 h]
              exact ⟨p, List.mem_cons_self, fun c hc => hc⟩
          · exact hlater false h

/-- **What is read from one line is made of tokens.** -/
theorem isToken_of_mem_tokenize {line t : String} (hline : '\n' ∉ line.toList)
    (h : t ∈ tokenize line) : IsToken t := by
  obtain ⟨s, hs, rfl⟩ := List.mem_map.1 h
  obtain ⟨p, hp, hsub⟩ := mem_tokensOfPieces hs
  refine ⟨fun he => ?_, ?_, ?_⟩
  · rw [← String.toList_eq_nil_iff, String.toList_ofList] at he
    exact ne_nil_of_mem_tokensOfPieces false _ s hs he
  · rw [String.toList_ofList]
    exact fun hq => Text.not_mem_of_mem_pieces hp (hsub _ hq)
  · rw [String.toList_ofList]
    exact fun hn => hline (Text.mem_of_mem_pieces hp _ (hsub _ hn))

def Line.text : Line → String
  | .header name => name
  | .command text => text

theorem mem_of_ofText? {raw : List Char} {line : Line} (h : Line.ofText? raw = some line) :
    ∀ c ∈ line.text.toList, c ∈ raw := by
  have hsub : ∀ {s : List Char}, (∀ c ∈ s, c ∈ Text.trimmed raw) → ∀ c ∈ s, c ∈ raw :=
    fun hs c hc => Text.mem_of_mem_trimmed (hs c hc)
  unfold Line.ofText? at h
  split at h
  · cases h
  · cases h
  · next rest htrimmed =>
      split at h
      · cases h
        rw [Line.text, String.toList_ofList]
        refine hsub fun c hc => ?_
        rw [htrimmed]
        exact List.mem_cons_of_mem _ (List.dropLast_subset _ hc)
      · cases h
        rw [Line.text, String.toList_ofList, ← htrimmed]
        exact hsub fun c hc => hc
  · cases h
    rw [Line.text, String.toList_ofList]
    exact hsub fun c hc => hc

theorem newline_not_mem_linesOf {text : String} :
    ∀ line ∈ linesOf text, '\n' ∉ line.text.toList := by
  intro line hline hmem
  obtain ⟨raw, hraw, hread⟩ := List.mem_filterMap.1 hline
  exact Text.not_mem_of_mem_pieces hraw (mem_of_ofText? hread _ hmem)

/-- Lines without line ends give a printable script. -/
theorem sections_printable {lines : List Line} (h : ∀ line ∈ lines, '\n' ∉ line.text.toList) :
    (∀ text ∈ (sections lines).1, '\n' ∉ text.toList) ∧ Printable (sections lines).2 := by
  induction lines with
  | nil => exact ⟨by simp [sections], printable_nil⟩
  | cons line rest ih =>
      have hline := h line List.mem_cons_self
      obtain ⟨hpending, hrest⟩ := ih fun l hl => h l (List.mem_cons_of_mem _ hl)
      rw [sections, List.foldr_cons, ← sections]
      cases line with
      | header name =>
          refine ⟨by simp [addLine], printable_cons.2 ⟨⟨hline, ?_⟩, hrest⟩⟩
          intro c hc t ht
          obtain ⟨text, htext, rfl⟩ := List.mem_map.1 hc
          exact isToken_of_mem_tokenize (hpending text htext) ht
      | command text =>
          refine ⟨fun s hs => ?_, hrest⟩
          rcases List.mem_cons.1 hs with rfl | hs
          · exact hline
          · exact hpending s hs

/-- **What a text says is printable.** -/
theorem ofText_printable (text : String) : Printable (ofText text) :=
  (sections_printable newline_not_mem_linesOf).2

/-- **Reading a script and printing one are as inverse as they can be.** Exactly the printable
scripts are what some text says, and exactly they are read back from their printed form. -/
theorem ofText_range_and_print_inverse (script : Script) :
    ((∃ text, ofText text = script) ↔ Printable script) ∧
      (ofText (print script) = script ↔ Printable script) := by
  refine ⟨⟨?_, fun h => ⟨print script, ofText_print h⟩⟩, ⟨fun h => ?_, ofText_print⟩⟩
  · rintro ⟨text, rfl⟩
    exact ofText_printable text
  · rw [← h]
    exact ofText_printable (print script)

end PackageScript.Script
