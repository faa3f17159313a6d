import PackageScript.Proofs.Command.FileEffects
import PackageScript.Proofs.Files.Growth
import PackageScript.Proofs.Files.Move
import PackageScript.Proofs.Script.Printing
import PackageScript.Runner

set_option autoImplicit false

/-! # Loading a script

A script is read from its file, and if its path leads to nothing, a file is made there first. The
text of that file is read as the two options that were asked for, whatever their names are made of
(`Script.ofText_initialText`). After that there is something to read, so loading again only reads.

A path that leads to nothing can still spell the place of a file: it may go through a missing
directory and back out of it. Once that directory is made, the path leads to the file, and writing
the new script replaces it. Apart from this case loading changes nothing but what was missing
(`Script.load_creates_iff`).
-/

namespace PackageScript

/-! ## Writing a file -/

theorem fromUTF8?_toUTF8 (text : String) : String.fromUTF8? text.toUTF8 = some text := by
  rw [String.fromUTF8?, String.toUTF8_eq_toByteArray, dif_pos text.isValidUTF8]
  rfl

namespace FileSystem

variable {fs fs' : FileSystem} {p dst : HostPath} {q : Place}

theorem OnWay.overlay {W : Place → Prop} (hfs : fs.Plain) (h : fs.OnWay dst q)
    (hoverlay : Overlay W fs fs') : fs'.OnWay dst q := by
  obtain ⟨p, hfront, hproper, es, hstat⟩ := h
  obtain ⟨hleads, rfl, hnode, -⟩ := (stat_eq_ok_iff hfs).1 hstat
  obtain ⟨es', hes'⟩ := entryAt?_eq_dir_iff.1
    (hoverlay.dirs _ (entryAt?_eq_dir_iff.2 ⟨es, hnode⟩))
  exact ⟨p, hfront, hproper, es', (stat_eq_ok_iff hoverlay.plain).2
    ⟨hoverlay.leads hleads, (hoverlay.locate p).symm, hes', fun _ => rfl⟩⟩

theorem exists?_of_readText {text : String} (h : fs.readText p = .ok text) :
    fs.exists? p = true := by
  rw [exists?]
  cases hstat : fs.stat p with
  | ok found => rfl
  | error e =>
      rw [readText, readBytes, hstat] at h
      cases h

theorem readText_of_file (hfs : fs.Plain) (hleads : fs.Leads p) (hslash : p.endsWithSlash = false)
    {text : String} (hfile : fs.entryAt? (fs.locate p) = some (.file text.toUTF8)) :
    fs.readText p = .ok text := by
  have hstat : fs.stat p = .ok (fs.locate p, .file text.toUTF8) :=
    (stat_eq_ok_iff hfs).2 ⟨hleads, rfl, entryAt?_eq_file_iff.1 hfile, fun hs => by
      rw [hslash] at hs
      cases hs⟩
  rw [readText, readBytes, hstat]
  dsimp only
  rw [fromUTF8?_toUTF8]

end FileSystem

namespace FileAction

open FileSystem (Overlay)

variable {fs fs' : FileSystem} {p : HostPath}

/-- What is written to a file can be read, and nothing else has changed. -/
theorem writeFile_ok (hfs : fs.Plain) {text : String}
    (h : writeFile p text.toUTF8 fs = .ok () fs') :
    Overlay (· = fs.locate p) fs fs' ∧ fs.entryAt? (fs.locate p) ≠ some .dir
      ∧ (∀ q, fs'.entryAt? q
        = if q = fs.locate p then some (.file text.toUTF8) else fs.entryAt? q)
      ∧ fs'.readText p = .ok text := by
  obtain ⟨place, fs1, hcreate, hwrite⟩ := bind_eq_ok_iff.1 h
  rw [createFile] at hcreate
  cases hplace : writePlace p fs with
  | error e =>
      rw [hplace] at hcreate
      cases hcreate
  | ok place' =>
      rw [hplace] at hcreate
      cases hcreate
      obtain ⟨hleads, hslash, rfl, hnot⟩ := (writePlace_eq_ok_iff hfs).1 hplace
      cases hwrite
      have hslot := hleads.slot hfs hnot
      -- the file is emptied first and then filled, both at the place of the path
      have hempty : Overlay (· = fs.locate p) fs (fs.setFile (fs.locate p) .empty) :=
        Overlay.setFile (W := (· = fs.locate p)) hfs hslot hnot rfl _
      have hentry := FileSystem.entryAt?_setFile hslot hnot .empty
      have hslot' := (hempty.leads hleads).slot hempty.plain
        (by rw [hempty.locate, hentry, if_pos rfl]; simp)
      rw [hempty.locate] at hslot'
      have hnot' : (fs.setFile (fs.locate p) .empty).entryAt? (fs.locate p) ≠ some .dir := by
        rw [hentry, if_pos rfl]
        simp
      have hfull := hempty.trans
        (Overlay.setFile (W := (· = fs.locate p)) hempty.plain hslot' hnot' rfl text.toUTF8)
      have hfinal : ∀ q, ((fs.setFile (fs.locate p) .empty).setFile (fs.locate p)
          text.toUTF8).entryAt? q
          = if q = fs.locate p then some (.file text.toUTF8) else fs.entryAt? q := by
        intro q
        rw [FileSystem.entryAt?_setFile hslot' hnot', hentry]
        split <;> rfl
      refine ⟨hfull, hnot, hfinal, ?_⟩
      exact FileSystem.readText_of_file hfull.plain (hfull.leads hleads) hslash
        (by rw [hfull.locate, hfinal, if_pos rfl])

end FileAction

theorem Action.bind_eq_ok_iff {α β : Type} {act : Action α} {next : α → Action β} {w w' : World}
    {b : β} : (act >>= next) w = .ok b w' ↔ ∃ a w1, act w = .ok a w1 ∧ next a w1 = .ok b w' := by
  show EStateM.bind act next w = .ok b w' ↔ _
  rw [EStateM.bind]
  cases act w with
  | ok a w1 => simp
  | error e w1 => simp

namespace Script

variable {path : HostPath} {names : Option (String × String)} {w w' : World} {script : Script}

/-! ## The initial script -/

def initialScript (names : Option (String × String)) : Script :=
  match names with
  | some (first, second) => [⟨first, [["reboot"]]⟩, ⟨second, [["shutdown"]]⟩]
  | none => []

theorem linesOf_skeleton {first second : String} (hfirst : '\n' ∉ first.toList)
    (hsecond : '\n' ∉ second.toList) :
    linesOf (skeleton (first, second))
      = [.header first, .command "reboot", .header second, .command "shutdown"] := by
  have htext : (skeleton (first, second)).toList
      = [('[' :: (first.toList ++ [']'])), "reboot".toList, ('[' :: (second.toList ++ [']'])),
        "shutdown".toList].flatMap (· ++ ['\n']) := by
    simp [skeleton]
  have hlines : ∀ line ∈ [('[' :: (first.toList ++ [']'])), "reboot".toList,
      ('[' :: (second.toList ++ [']'])), "shutdown".toList], '\n' ∉ line := by
    simp [hfirst, hsecond]
  have hreboot : Line.ofText? "reboot".toList = some (.command "reboot") := by decide +kernel
  have hshutdown : Line.ofText? "shutdown".toList = some (.command "shutdown") := by
    decide +kernel
  have hblank : Line.ofText? [] = none := by decide +kernel
  rw [linesOf, htext, Text.pieces_flatMap_concat hlines]
  simp only [List.cons_append, List.nil_append, List.filterMap_cons, List.filterMap_nil,
    ofText?_header, hreboot, hshutdown, hblank, String.ofList_toList]

/-- **The initial text is read as the initial script**, whatever the names are made of. -/
theorem ofText_initialText
    (hnames : ∀ pair ∈ names, '\n' ∉ pair.1.toList ∧ '\n' ∉ pair.2.toList) :
    ofText (initialText names) = initialScript names := by
  cases names with
  | none => decide +kernel
  | some pair =>
      obtain ⟨first, second⟩ := pair
      obtain ⟨hfirst, hsecond⟩ := hnames _ rfl
      have hreboot : tokenize "reboot" = ["reboot"] := by decide +kernel
      have hshutdown : tokenize "shutdown" = ["shutdown"] := by decide +kernel
      rw [initialText, ofText, linesOf_skeleton hfirst hsecond, initialScript]
      simp only [sections, List.foldr_cons, List.foldr_nil, addLine, List.map_cons, List.map_nil,
        hreboot, hshutdown]

/-! ## Reading -/

/-- What loading comes to where there is something to read. -/
def read (path : HostPath) : Action Script := do
  let text ← Action.files (FileAction.ask fun fs => fs.readText path)
  Action.noteAll ((preamble text).map Notice.droppedLine)
  pure (ofText text)

theorem load_of_exists (h : w.files.exists? path = true) :
    load path names w = read path w := by
  show (if (!w.files.exists? path) = true then _ else _ : Action Script) w = _
  rw [h, if_neg (by decide)]
  rfl

theorem load_of_missing (h : w.files.exists? path = false) :
    load path names w = (create path names >>= fun _ => read path) w := by
  show (if (!w.files.exists? path) = true then _ else _ : Action Script) w = _
  rw [h, if_pos (by decide)]
  rfl

theorem read_eq : read path w = match w.files.readText path with
    | .ok text => .ok (ofText text) (w.noteAll ((preamble text).map Notice.droppedLine))
    | .error e => .error (.ofFileError e) w := by
  show EStateM.bind (Action.files (FileAction.ask fun fs => fs.readText path)) _ w = _
  rw [EStateM.bind, Action.files, FileAction.ask]
  cases w.files.readText path <;> rfl

theorem filesAfter_read : (read path).filesAfter w = w.files := by
  rw [Action.filesAfter, read_eq]
  cases w.files.readText path <;> rfl

theorem of_read_eq_ok (h : read path w = .ok script w') :
    w'.files = w.files ∧ ∃ text, w.files.readText path = .ok text ∧ script = ofText text := by
  rw [read_eq] at h
  cases htext : w.files.readText path with
  | ok text =>
      rw [htext] at h
      cases h
      exact ⟨rfl, text, rfl, rfl⟩
  | error e =>
      rw [htext] at h
      cases h

theorem readText_of_load (h : load path names w = .ok script w') :
    ∃ text, w'.files.readText path = .ok text ∧ script = ofText text := by
  cases hexists : w.files.exists? path with
  | true =>
      rw [load_of_exists hexists] at h
      obtain ⟨hfiles, hread⟩ := of_read_eq_ok h
      rw [hfiles]
      exact hread
  | false =>
      rw [load_of_missing hexists] at h
      obtain ⟨⟨⟩, w1, -, hread⟩ := Action.bind_eq_ok_iff.1 h
      obtain ⟨hfiles, htext⟩ := of_read_eq_ok hread
      rw [hfiles]
      exact htext

/-- **A loaded script is loaded again as it is**, whatever names are given then. -/
theorem load_again (h : load path names w = .ok script w') {again : World}
    (hfiles : again.files = w'.files) (others : Option (String × String)) :
    ∃ w'', load path others again = .ok script w'' ∧ w''.files = w'.files := by
  obtain ⟨text, htext, rfl⟩ := readText_of_load h
  rw [← hfiles] at htext ⊢
  refine ⟨again.noteAll ((preamble text).map Notice.droppedLine), ?_, rfl⟩
  rw [load_of_exists (FileSystem.exists?_of_readText htext), read_eq, htext]

/-! ## Creating -/

theorem files_of_create (h : create path names w = .ok () w') :
    ∃ fs, FileAction.ensureParent path w.files = .ok () fs
      ∧ FileAction.writeFile path (initialText names).toUTF8 fs = .ok () w'.files := by
  obtain ⟨⟨⟩, w1, hparent, hrest⟩ := Action.bind_eq_ok_iff.1 h
  obtain ⟨⟨⟩, w2, hnote, hwrite⟩ := Action.bind_eq_ok_iff.1 hrest
  cases hnote
  exact ⟨w1.files, Action.of_files_eq_ok hparent,
    Action.of_files_eq_ok (w := w1.note (.creatingScript path)) hwrite⟩

/-- **Nothing but a new file and missing directories**: what stood anywhere stands there as it did,
and what is new is the file with its text and directories that its path leads by. -/
structure OnlyCreates (path : HostPath) (text : String) (fs fs' : FileSystem) : Prop where
  home : fs'.home = fs.home
  kept : ∀ q, fs.entryAt? q ≠ none → fs'.entryAt? q = fs.entryAt? q
  made : ∀ q, fs.entryAt? q = none → fs'.entryAt? q ≠ none →
    q = fs.locate path ∧ fs'.entryAt? q = some (.file text.toUTF8)
      ∨ fs'.entryAt? q = some .dir ∧ fs'.OnWay path q

/-- What creating a script leaves: the file at the place that its path spells, and elsewhere no more
than directories that its path leads by. -/
theorem entries_of_create (hfs : w.files.Plain) (h : create path names w = .ok () w') :
    w'.files.home = w.files.home
      ∧ w'.files.entryAt? (w.files.locate path) = some (.file (initialText names).toUTF8)
      ∧ (∀ q, q ≠ w.files.locate path → w'.files.entryAt? q = w.files.entryAt? q
        ∨ w.files.entryAt? q = none ∧ w'.files.entryAt? q = some .dir ∧ w'.files.OnWay path q)
      ∧ w'.files.readText path = .ok (initialText names) := by
  obtain ⟨fs, hparent, hwrite⟩ := files_of_create h
  have hgrows := (FileAction.ensureParent_ends hfs path).of_ok hparent
  have halong := (FileAction.ensureParent_along path w.files).of_ok hparent
  obtain ⟨hoverlay, -, hentry, hread⟩ := FileAction.writeFile_ok hgrows.plain hwrite
  rw [hgrows.locate] at hentry
  refine ⟨hoverlay.home.trans hgrows.home, by rw [hentry, if_pos rfl], fun q hq => ?_, hread⟩
  rw [hentry, if_neg hq]
  rcases halong.entry q with heq | ⟨hnone, hdir, hway⟩
  · exact Or.inl heq
  · exact Or.inr ⟨hnone, hdir, hway.overlay hgrows.plain hoverlay⟩

/-- **Creating a script changes nothing but what was missing, unless its path spells the place of
another file.** -/
theorem onlyCreates_iff_of_create (hfs : w.files.Plain) (h : create path names w = .ok () w') :
    OnlyCreates path (initialText names) w.files w'.files
      ↔ ∀ e, w.files.entryAt? (w.files.locate path) = some e →
        e = .file (initialText names).toUTF8 := by
  obtain ⟨hhome, hfile, hrest, -⟩ := entries_of_create hfs h
  constructor
  · intro honly e he
    have hkept := honly.kept (w.files.locate path) (by rw [he]; simp)
    rw [hfile, he] at hkept
    exact (Option.some.inj hkept).symm
  · intro hsame
    refine ⟨hhome, fun q hq => ?_, fun q hnone hmade => ?_⟩
    · by_cases hplace : q = w.files.locate path
      · obtain ⟨e, he⟩ := Option.ne_none_iff_exists'.1 hq
        subst hplace
        rw [hfile, he, hsame e he]
      · exact (hrest q hplace).resolve_right fun hmade => hq hmade.1
    · by_cases hplace : q = w.files.locate path
      · exact Or.inl ⟨hplace, hplace ▸ hfile⟩
      · rcases hrest q hplace with heq | ⟨-, hdir, hway⟩
        · exact absurd (heq.trans hnone) hmade
        · exact Or.inr ⟨hdir, hway⟩

variable (path names w)

/-- **Loading creates once and then only reads.** In a tree without links, where the path leads to
something, loading changes nothing. Where it leads to nothing, what is loaded is the initial script,
for any names on one line, and nothing changes but what was missing, unless the place that the path
spells already has something else than the initial text. Whatever was loaded is loaded again as it
is, and that changes nothing. -/
theorem load_creates_iff (hfs : w.files.Plain)
    (hnames : ∀ pair ∈ names, '\n' ∉ pair.1.toList ∧ '\n' ∉ pair.2.toList) :
    (w.files.exists? path = true → (load path names).filesAfter w = w.files)
      ∧ (w.files.exists? path = false → ∀ script w', load path names w = .ok script w' →
        script = initialScript names
          ∧ (OnlyCreates path (initialText names) w.files w'.files
            ↔ ∀ e, w.files.entryAt? (w.files.locate path) = some e →
              e = .file (initialText names).toUTF8))
      ∧ (∀ script w', load path names w = .ok script w' → ∀ others again,
        again.files = w'.files →
          ∃ w'', load path others again = .ok script w'' ∧ w''.files = w'.files) := by
  refine ⟨fun hexists => ?_, fun hmissing script w' h => ?_, fun script w' h others again hfiles =>
    load_again h hfiles others⟩
  · rw [Action.filesAfter, load_of_exists hexists, ← Action.filesAfter, filesAfter_read]
  · rw [load_of_missing hmissing] at h
    obtain ⟨⟨⟩, w1, hcreate, hread⟩ := Action.bind_eq_ok_iff.1 h
    obtain ⟨hfiles, text, htext, rfl⟩ := of_read_eq_ok hread
    obtain ⟨-, -, -, hinitial⟩ := entries_of_create hfs hcreate
    obtain rfl : initialText names = text := Except.ok.inj (hinitial.symm.trans htext)
    rw [hfiles]
    exact ⟨ofText_initialText hnames, onlyCreates_iff_of_create hfs hcreate⟩

open FileAction (folder folder_plain)

variable {path names w} in
theorem exists_loaded
    (h : (match load path names w with | .ok _ _ => true | .error _ _ => false) = true) :
    ∃ script w', load path names w = .ok script w' := by
  cases hload : load path names w with
  | ok script w' => exact ⟨script, w', rfl⟩
  | error e w' =>
      rw [hload] at h
      cases h

/-- A script in a directory that is missing, with names of brackets, quotes and blanks. -/
theorem load_creates_in_missing_directory :
    ∃ w' w'', load ⟨"n/s.ini"⟩ (some ("]#['", " ")) (.ofFiles folder)
        = .ok [⟨"]#['", [["reboot"]]⟩, ⟨" ", [["shutdown"]]⟩] w'
      ∧ OnlyCreates ⟨"n/s.ini"⟩ (initialText (some ("]#['", " "))) folder w'.files
      ∧ load ⟨"n/s.ini"⟩ none w' = .ok [⟨"]#['", [["reboot"]]⟩, ⟨" ", [["shutdown"]]⟩] w''
      ∧ w''.files = w'.files
      ∧ (load ⟨"d/a"⟩ none).filesAfter (.ofFiles folder) = folder := by
  have hnames : ∀ pair ∈ some ("]#['", " "), '\n' ∉ pair.1.toList ∧ '\n' ∉ pair.2.toList := by
    rintro _ ⟨⟩
    decide +kernel
  obtain ⟨-, hmissing, hagain⟩ := load_creates_iff ⟨"n/s.ini"⟩ (some ("]#['", " "))
    (.ofFiles folder) folder_plain hnames
  obtain ⟨hread, -, -⟩ := load_creates_iff ⟨"d/a"⟩ none (.ofFiles folder) folder_plain nofun
  obtain ⟨script, w', hload⟩ : ∃ script w',
      load ⟨"n/s.ini"⟩ (some ("]#['", " ")) (.ofFiles folder) = .ok script w' :=
    exists_loaded (by decide +kernel)
  obtain ⟨rfl, honly⟩ := hmissing (by decide +kernel) _ _ hload
  obtain ⟨w'', hload', hfiles⟩ := hagain _ _ hload none w' rfl
  refine ⟨w', w'', hload, honly.2 fun e he => ?_, hload', hfiles, hread (by decide +kernel)⟩
  have hnone : folder.entryAt? (folder.locate ⟨"n/s.ini"⟩) = none :=
    FileSystem.entryAt?_eq_none_iff.2 (Option.isNone_iff_eq_none.1 (by decide +kernel))
  cases hnone.symm.trans he

/-- **Loading can replace a file.** The path leads to nothing as long as its first directory is
missing. That directory is made, and then the path leads to a file that was there all along. -/
theorem load_replaces_file :
    ¬ ∀ (path : HostPath) (names : Option (String × String)) (w w' : World) (script : Script),
      w.files.Plain → (∀ pair ∈ names, '\n' ∉ pair.1.toList ∧ '\n' ∉ pair.2.toList) →
      w.files.exists? path = false → load path names w = .ok script w' →
      OnlyCreates path (initialText names) w.files w'.files := by
  intro hall
  have hnames : ∀ pair ∈ some ("A", "B"), '\n' ∉ pair.1.toList ∧ '\n' ∉ pair.2.toList := by
    rintro _ ⟨⟩
    decide +kernel
  obtain ⟨script, w', hload⟩ : ∃ script w', load ⟨"new/../d/a"⟩ (some ("A", "B"))
      (.ofFiles folder) = .ok script w' := exists_loaded (by decide +kernel)
  have honly := hall _ _ _ _ _ folder_plain hnames (by decide +kernel) hload
  have hsize : (w'.files.contentAt ["d", "a"]).size = 24 := by
    rw [← Action.filesAfter_of_ok hload]
    decide +kernel
  have hfile : folder.entryAt? ["d", "a"] = some (.file ⟨#[49]⟩) := rfl
  have hkept := honly.kept ["d", "a"] (by rw [World.ofFiles, hfile]; simp)
  rw [World.ofFiles, hfile] at hkept
  rw [FileSystem.contentAt_of_file hkept] at hsize
  exact absurd hsize (by decide)

end Script

end PackageScript
