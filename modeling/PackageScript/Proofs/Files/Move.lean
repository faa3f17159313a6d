import PackageScript.Files.Move
import PackageScript.Proofs.Files.Copy
import PackageScript.Proofs.Files.Delete

set_option autoImplicit false

/-! # Which moves keep every file

A directory is moved by copying it and deleting it, and a file by clearing its new place and
renaming it. Neither looks whether the new place is the old one. So a move is safe
(`FileSystem.MoveIsSafe`) if no copy of a file falls at or below the directory that will be
deleted, or if a file does not land on itself. A safe move keeps every file, with its bytes, at
its old or at its new place, however the move ends. A move that is not safe and returns has lost
a file, and so has any unsafe move of a file (`moveEntry_keeps_files_iff_safe`).
-/

namespace PackageScript

namespace FileSystem

variable {fs fs' : FileSystem} {src dst : HostPath}

/-! ## Where a move leads -/

/-- The file system once the directories around the new place have been made, or as far as
they could be. -/
def withParent (fs : FileSystem) (dst : HostPath) : FileSystem :=
  match FileAction.ensureParent dst fs with
  | .ok _ fs' => fs'
  | .error _ fs' => fs'

/-- **The path that a move gives to what `src` names**: `dst` for a directory, and for a file
the place where it lands. -/
def moveTarget (fs : FileSystem) (src dst : HostPath) : HostPath :=
  if fs.isDir src then dst else (fs.withParent dst).landing src dst

/-- **Every file at or below `old` is still there**, with its bytes, or at its place below
`new`. -/
def KeepsFiles (fs fs' : FileSystem) (old new : Place) : Prop :=
  ∀ below b, fs.entryAt? (old ++ below) = some (.file b) →
    fs'.entryAt? (old ++ below) = some (.file b) ∨ fs'.entryAt? (new ++ below) = some (.file b)

/-- A file that is moved to where it is: the directories around the new place can be made, and
then the path where the file lands leads to the file itself. -/
def LandsOnItself (fs : FileSystem) (src dst : HostPath) : Prop :=
  ∃ fs', FileAction.ensureParent dst fs = .ok () fs'
    ∧ fs'.exists? (fs'.landing src dst) = true
    ∧ fs'.locate (fs'.landing src dst) = fs'.locate src

/-- **A move that loses nothing.** A directory may go where no copy of its files falls at or
below the directory itself, or where its copying is refused. A file may go anywhere but onto
itself. -/
def MoveIsSafe (fs : FileSystem) (src dst : HostPath) : Prop :=
  if fs.isDir src then
    fs.Apart (fs.locate src) (fs.locate dst) (fs.locate src)
      ∨ src.isStartOf dst = true ∧ src.same dst = false
  else ¬ fs.LandsOnItself src dst

theorem KeepsFiles.of_overlay {W : Place → Prop} {old : Place} (h : Overlay W fs fs')
    (hW : ∀ below, ¬ W (old ++ below)) (new : Place) : fs.KeepsFiles fs' old new :=
  fun below _ hb => Or.inl ((h.file_iff (hW below)).2 hb)

/-- A file is all that stands at or below its place. -/
theorem keepsFiles_iff_of_file {old new : Place} {b : ByteArray}
    (hfile : fs.entryAt? old = some (.file b)) :
    fs.KeepsFiles fs' old new
      ↔ fs'.entryAt? old = some (.file b) ∨ fs'.entryAt? new = some (.file b) := by
  constructor
  · intro h
    have hself := h [] b (by rw [List.append_nil]; exact hfile)
    rw [List.append_nil, List.append_nil] at hself
    exact hself
  · intro h below c hc
    have hnil : below = [] := eq_nil_of_below_file hfile (by rw [hc]; simp)
    rw [hnil, List.append_nil] at hc ⊢
    rw [List.append_nil]
    rw [hfile] at hc
    cases hc
    exact h

end FileSystem

namespace FileAction

open FileSystem (Overlay Grows Prunes)

variable {fs fs' : FileSystem}

/-! ## Moving a file -/

theorem clearTarget_ends (hfs : fs.Plain) (p : HostPath) :
    Ends (clearTarget p) fs
      (fun _ fs' => fs' = if fs.isFile p then fs.erase (fs.locate p) else fs)
      (fun _ fs' => fs' = fs) := by
  have hclear : clearTarget p fs = clearFile p fs := by
    rw [clearTarget, clearFile, FileSystem.isNonDir_eq_isFile hfs]
  rw [Ends, hclear]
  exact clearFile_ends hfs p

/-- **A rename keeps the file** at its old place or puts it at the new one. -/
theorem rename_keeps (hfs : fs.Plain) (src dst : HostPath) {b : ByteArray}
    (hfile : fs.entryAt? (fs.locate src) = some (.file b)) :
    Ends (rename src dst) fs
      (fun _ fs' => fs'.entryAt? (fs.locate src) = some (.file b)
        ∨ fs'.entryAt? (fs.locate dst) = some (.file b))
      (fun _ fs' => fs'.entryAt? (fs.locate src) = some (.file b)
        ∨ fs'.entryAt? (fs.locate dst) = some (.file b)) := by
  refine (rename_ends hfs src dst).mono ?_ ?_
  · rintro _ fs' ⟨hold, hnew, hnot, c, hc, ⟨-, rfl⟩ | ⟨hne, rfl⟩⟩
    · exact Or.inl hfile
    · rw [hfile] at hc
      cases hc
      have hslot : fs.Slot (fs.locate src) := hold.slot hfs (by rw [hfile]; simp)
      have herase : Overlay (Eq (fs.locate src)) fs (fs.erase (fs.locate src)) :=
        .eraseFile hfs hslot hfile rfl
      have hnot' : (fs.erase (fs.locate src)).entryAt? (fs.locate dst) ≠ some .dir := by
        rw [FileSystem.entryAt?_erase hslot]
        split
        · simp
        · exact hnot
      right
      rw [FileSystem.entryAt?_setFile ((hnew.slot hfs hnot).mono herase.dirs) hnot',
        if_pos rfl]
  · rintro _ _ rfl
    exact Or.inl hfile

/-- The last steps of moving a file, once its new place is known: what was there is cleared,
and the file renamed. The file is lost exactly if the new place is its own. -/
theorem clearAndRename_ends (hfs : fs.Plain) (src target : HostPath) {b : ByteArray}
    (hb : fs.entryAt? (fs.locate src) = some (.file b)) :
    Ends (do clearTarget target; ensureParent target; rename src target) fs
      (fun _ fs' =>
        fs'.entryAt? (fs.locate src) = some (.file b)
            ∨ fs'.entryAt? (fs.locate target) = some (.file b)
          ↔ ¬ (fs.exists? target = true ∧ fs.locate target = fs.locate src))
      (fun _ fs' =>
        fs'.entryAt? (fs.locate src) = some (.file b)
            ∨ fs'.entryAt? (fs.locate target) = some (.file b)
          ↔ ¬ (fs.exists? target = true ∧ fs.locate target = fs.locate src)) := by
  by_cases hself : fs.exists? target = true ∧ fs.locate target = fs.locate src
  · -- the file is taken for one that is in the way of itself
    obtain ⟨hexists, hplace⟩ := hself
    obtain ⟨hleads, -, hslash⟩ := (FileSystem.exists?_iff hfs).1 hexists
    have hfile : fs.isFile target = true := by
      refine (FileSystem.isFile_iff hfs).2 ⟨hleads, ?_, b, hplace ▸ hb⟩
      rw [Bool.eq_false_iff]
      intro hs
      have hdir := hslash hs
      rw [hplace, hb] at hdir
      cases hdir
    have hslot : fs.Slot (fs.locate target) := hleads.slot hfs (by rw [hplace, hb]; simp)
    have hclear : clearTarget target fs = .ok () (fs.erase (fs.locate target)) := by
      rw [clearTarget, if_pos hfile, removeFile_eq_ok hfs hfile]
    have hprunes := Prunes.erase hfs hslot
    have hgone : (fs.erase (fs.locate target)).entryAt? (fs.locate src) = none := by
      rw [FileSystem.entryAt?_erase hslot, hplace, if_pos List.prefix_rfl]
    have hlost : ∀ fs', Grows (fs.erase (fs.locate target)) fs' →
        ¬ (fs'.entryAt? (fs.locate src) = some (.file b)
          ∨ fs'.entryAt? (fs.locate target) = some (.file b)) := by
      intro fs' hgrows h
      rw [hplace, or_self, hgrows.file_iff, hgone] at h
      cases h
    have hiff : ∀ {P : Prop}, ¬ P →
        (P ↔ ¬ (fs.exists? target = true ∧ fs.locate target = fs.locate src)) := fun hP =>
      ⟨fun h => absurd h hP, fun h => absurd ⟨hexists, hplace⟩ h⟩
    refine Ends.bind (ends_of_ok hclear (Ends.bind ((ensureParent_ends hprunes.plain target).mono
      (fun _ fs3 h3 => ?_) fun _ fs3 h3 => hiff (hlost fs3 h3))))
    refine (rename_ends h3.plain src target).mono ?_ ?_
    · rintro _ fs' ⟨-, -, -, c, hc, -⟩
      rw [h3.locate, hprunes.locate, h3.file_iff, hgone] at hc
      cases hc
    · rintro _ _ rfl
      exact hiff (hlost _ h3)
  · have hiff : ∀ {P : Prop}, P →
        (P ↔ ¬ (fs.exists? target = true ∧ fs.locate target = fs.locate src)) := fun hP =>
      ⟨fun _ => hself, fun _ => hP⟩
    -- what is cleared, if anything, is another file
    have hclear : Ends (clearTarget target) fs
        (fun _ fs' => fs'.Plain ∧ fs'.home = fs.home
          ∧ fs'.entryAt? (fs.locate src) = some (.file b))
        (fun _ fs' => fs'.entryAt? (fs.locate src) = some (.file b)) := by
      refine (clearTarget_ends hfs target).mono ?_ ?_
      · rintro _ _ rfl
        by_cases hfile : fs.isFile target = true
        · obtain ⟨hleads, hslash, c, hc⟩ := (FileSystem.isFile_iff hfs).1 hfile
          have hne : fs.locate target ≠ fs.locate src := fun heq =>
            hself ⟨(FileSystem.exists?_iff hfs).2 ⟨hleads, by rw [hc]; simp, fun h => by
              rw [hslash] at h
              cases h⟩, heq⟩
          have herase : Overlay (Eq (fs.locate target)) fs (fs.erase (fs.locate target)) :=
            .eraseFile hfs (hleads.slot hfs (by rw [hc]; simp)) hc rfl
          rw [if_pos hfile]
          exact ⟨herase.plain, herase.home, (herase.file_iff hne).2 hb⟩
        · rw [if_neg hfile]
          exact ⟨hfs, rfl, hb⟩
      · rintro _ _ rfl
        exact hb
    refine Ends.bind (hclear.mono (fun _ fs2 h2 => ?_) fun _ _ h => hiff (Or.inl h))
    obtain ⟨hplain, hhome, hb2⟩ := h2
    refine Ends.bind ((ensureParent_ends hplain target).mono (fun _ fs3 h3 => ?_)
      fun _ fs3 h3 => hiff (Or.inl (h3.file_iff.2 hb2)))
    have hplace : ∀ p, fs3.locate p = fs.locate p := fun p =>
      (h3.locate p).trans (FileSystem.locate_congr hhome p)
    have hgo := rename_keeps h3.plain src target (b := b)
      (by rw [hplace]; exact h3.file_iff.2 hb2)
    rw [hplace, hplace] at hgo
    exact hgo.mono (fun _ _ h => hiff h) fun _ _ h => hiff h

/-- **A moved file is kept exactly if it does not land on itself**, however the move ends. -/
theorem moveFile_ends (hfs : fs.Plain) (src dst : HostPath) (hsrc : fs.isFile src = true) :
    Ends (moveEntry src dst) fs
      (fun _ fs' =>
        fs.KeepsFiles fs' (fs.locate src) (fs.locate (fs.moveTarget src dst))
          ↔ ¬ fs.LandsOnItself src dst)
      (fun _ fs' =>
        fs.KeepsFiles fs' (fs.locate src) (fs.locate (fs.moveTarget src dst))
          ↔ ¬ fs.LandsOnItself src dst) := by
  obtain ⟨hleads, hslash, b, hb⟩ := (FileSystem.isFile_iff hfs).1 hsrc
  have hnotDir : fs.isDir src = false := by
    rw [Bool.eq_false_iff]
    intro hdir
    rw [((FileSystem.isDir_iff hfs).1 hdir).2] at hb
    cases hb
  have hstat : fs.stat src = .ok (fs.locate src, .file b) :=
    (FileSystem.stat_eq_ok_iff hfs).2 ⟨hleads, rfl, FileSystem.entryAt?_eq_file_iff.1 hb,
      fun h => by rw [hslash] at h; cases h⟩
  simp only [FileSystem.keepsFiles_iff_of_file hb]
  rw [moveEntry]
  refine Ends.bind (ends_ask (fun found hfound => ?_) fun e he => ?_)
  · rw [hstat] at hfound
    cases hfound
    dsimp only
    have hparent := ensureParent_ends hfs dst
    cases hrun : ensureParent dst fs with
    | error e fs1 =>
        -- the move stops before it has touched a file
        have hgrows := hparent.of_error hrun
        refine Ends.bind (ends_of_error hrun ⟨fun _ hlands => ?_, fun _ => ?_⟩)
        · obtain ⟨fs', hok, -⟩ := hlands
          rw [hrun] at hok
          cases hok
        · exact Or.inl (hgrows.file_iff.2 hb)
    | ok _ fs1 =>
        have hgrows := hparent.of_ok hrun
        have htarget : fs.locate (fs.moveTarget src dst)
            = fs1.locate (fs1.landing src dst) := by
          rw [FileSystem.moveTarget, if_neg (by simp [hnotDir]), FileSystem.withParent, hrun,
            hgrows.locate]
        have hlands : fs.LandsOnItself src dst
            ↔ fs1.exists? (fs1.landing src dst) = true
              ∧ fs1.locate (fs1.landing src dst) = fs1.locate src := by
          constructor
          · rintro ⟨fs', hok, h⟩
            rw [hrun] at hok
            cases hok
            exact h
          · exact fun h => ⟨fs1, hrun, h⟩
        refine Ends.bind (ends_of_ok hrun (Ends.bind (ends_look ?_)))
        rw [htarget, hlands, ← hgrows.locate src]
        exact clearAndRename_ends hgrows.plain src (fs1.landing src dst)
          (by rw [hgrows.locate]; exact hgrows.file_iff.2 hb)
  · rw [hstat] at he
    cases he

/-! ## Moving a directory -/

/-- The way of a moved directory, from making the directories around its new place to deleting
it: `err` holds after each step that fails, and `ok` after the deletion. -/
theorem moveDir_ends (hfs : fs.Plain) (src dst : HostPath) (hdir : fs.isDir src = true)
    {ok : FileSystem → Prop} {err : FileSystem → Prop}
    (hgrow : ∀ fs1, Grows fs fs1 → err fs1)
    (hcopy : ∀ fs1, Grows fs fs1 →
      Ends (copyTree src dst) fs1
        (fun _ fs2 => Ends (deleteTree src) fs2 (fun _ => ok) (fun _ => err)) (fun _ => err)) :
    Ends (moveEntry src dst) fs (fun _ => ok) (fun _ => err) := by
  obtain ⟨hleads, hentry⟩ := (FileSystem.isDir_iff hfs).1 hdir
  obtain ⟨es, hes⟩ := FileSystem.entryAt?_eq_dir_iff.1 hentry
  have hstat : fs.stat src = .ok (fs.locate src, .dir es) :=
    (FileSystem.stat_eq_ok_iff hfs).2 ⟨hleads, rfl, hes, fun _ => rfl⟩
  rw [moveEntry]
  refine Ends.bind (ends_ask (fun found hfound => ?_) fun _ _ => hgrow fs (.refl hfs))
  rw [hstat] at hfound
  cases hfound
  exact Ends.bind ((ensureParent_ends hfs dst).mono (fun _ fs1 h1 => Ends.bind (hcopy fs1 h1))
    fun _ fs1 h1 => hgrow fs1 h1)

/-- **A directory keeps its files if no copy of them falls at or below it.** -/
theorem moveDir_keeps (hfs : fs.Plain) (src dst : HostPath) (hdir : fs.isDir src = true)
    (hapart : fs.Apart (fs.locate src) (fs.locate dst) (fs.locate src)) :
    Ends (moveEntry src dst) fs
      (fun _ fs' => fs.KeepsFiles fs' (fs.locate src) (fs.locate dst))
      (fun _ fs' => fs.KeepsFiles fs' (fs.locate src) (fs.locate dst)) := by
  refine moveDir_ends hfs src dst hdir (fun fs1 h1 => .of_overlay h1 (fun _ => id) _)
    fun fs1 h1 => ?_
  have hsrc := h1.locate src
  have hdst := h1.locate dst
  have hcopies : fs1.copiesOf (fs.locate src) (fs.locate dst)
      = fs.copiesOf (fs.locate src) (fs.locate dst) :=
    FileSystem.copiesOf_congr fun _ _ => h1.file_iff
  have hcopy := copyTreeTo_copies pathLimit fs1 src dst h1.plain (by
    rw [hsrc, hdst]
    intro q hq
    rw [hcopies] at hq
    exact hapart q hq)
  rw [hsrc, hdst, hcopies] at hcopy
  -- the copies are made away from the source, so that the source still has all its files
  have hleft : ∀ fs2, Overlay (fs.copiesOf (fs.locate src) (fs.locate dst)) fs1 fs2 →
      fs.KeepsFiles fs2 (fs.locate src) (fs.locate dst) := fun fs2 h2 =>
    .of_overlay (h1.overlay.trans h2)
      (fun below hq => hapart _ hq (List.prefix_append _ below)) _
  refine hcopy.mono ?_ fun _ fs2 h2 => hleft fs2 h2
  rintro _ fs2 ⟨hover, hcopied⟩
  -- and deleting the source does not reach the copies
  have hright : ∀ fs3, Prunes (fs.locate src) fs2 fs3 →
      fs.KeepsFiles fs3 (fs.locate src) (fs.locate dst) := by
    intro fs3 h3 below b hb
    right
    rw [h3.entry_of_not_below (hapart _ ⟨below, b, hb, rfl⟩)]
    exact hcopied below b (h1.file_iff.2 hb)
  have hdelete := deleteTreeTo_ends pathLimit src hover.plain
  rw [hover.locate, hsrc] at hdelete
  exact hdelete.mono (fun _ fs3 h3 => hright fs3 h3.1) fun _ fs3 h3 => hright fs3 h3

/-- A directory that a move was reported to have moved is gone. -/
theorem moveDir_empties (hfs : fs.Plain) (src dst : HostPath) (hdir : fs.isDir src = true) :
    Ends (moveEntry src dst) fs (fun _ fs' => fs'.entryAt? (fs.locate src) = none)
      (fun _ _ => True) := by
  refine moveDir_ends hfs src dst hdir (fun _ _ => trivial) fun fs1 h1 => ?_
  refine (copyTreeTo_below pathLimit h1.plain src dst).mono (fun _ fs2 h2 => ?_)
    fun _ _ _ => trivial
  have h12 := h1.overlay.trans h2
  obtain ⟨hleads, hentry⟩ := (FileSystem.isDir_iff hfs).1 hdir
  have hthere : fs2.exists? src = true := by
    refine (FileSystem.exists?_iff h12.plain).2 ⟨h12.leads hleads, ?_, fun _ => ?_⟩ <;>
      rw [h12.locate, h12.dirs _ hentry]
    simp
  have hdelete := deleteTreeTo_ends pathLimit src h12.plain
  rw [h12.locate] at hdelete
  exact hdelete.mono (fun _ _ h => h.2 hthere) fun _ _ _ => trivial

/-- A directory is not copied to where the parts of its own path lead on, and nothing is moved
then. -/
theorem moveDir_refused (hfs : fs.Plain) (src dst : HostPath) (hdir : fs.isDir src = true)
    (hinto : src.isStartOf dst = true) (hother : src.same dst = false) :
    Ends (moveEntry src dst) fs (fun _ _ => False) (fun _ fs' => Grows fs fs') := by
  refine moveDir_ends hfs src dst hdir (fun _ h1 => h1) fun fs1 h1 => ?_
  rw [copyTree_refused hother hinto]
  exact h1

/-! ## Which moves keep every file -/

/-- **A move keeps every file exactly if it is safe.** A safe move keeps every file at or below
its source, at its old or at its new place, however it ends. A move that is not safe loses one
if it returns, and a file that is moved onto itself is lost however the move ends. -/
theorem moveEntry_keeps_files_iff_safe (hfs : fs.Plain) (src dst : HostPath)
    (hsrc : fs.exists? src = true) :
    Ends (moveEntry src dst) fs
      (fun _ fs' =>
        fs.KeepsFiles fs' (fs.locate src) (fs.locate (fs.moveTarget src dst))
          ↔ fs.MoveIsSafe src dst)
      (fun _ fs' =>
        (fs.MoveIsSafe src dst →
          fs.KeepsFiles fs' (fs.locate src) (fs.locate (fs.moveTarget src dst)))
        ∧ (fs.isFile src = true →
          fs.KeepsFiles fs' (fs.locate src) (fs.locate (fs.moveTarget src dst)) →
            fs.MoveIsSafe src dst)) := by
  by_cases hdir : fs.isDir src = true
  · have hnotFile : ¬ fs.isFile src = true := by
      intro hfile
      obtain ⟨-, -, b, hb⟩ := (FileSystem.isFile_iff hfs).1 hfile
      rw [((FileSystem.isDir_iff hfs).1 hdir).2] at hb
      cases hb
    rw [FileSystem.moveTarget, if_pos hdir, FileSystem.MoveIsSafe, if_pos hdir]
    by_cases hapart : fs.Apart (fs.locate src) (fs.locate dst) (fs.locate src)
    · exact (moveDir_keeps hfs src dst hdir hapart).mono
        (fun _ _ h => ⟨fun _ => Or.inl hapart, fun _ => h⟩)
        fun _ _ h => ⟨fun _ => h, fun hfile => absurd hfile hnotFile⟩
    · by_cases hrefused : src.isStartOf dst = true ∧ src.same dst = false
      · refine (moveDir_refused hfs src dst hdir hrefused.1 hrefused.2).mono
          (fun _ _ h => h.elim) fun _ fs' h => ⟨fun _ => ?_, fun hfile => absurd hfile hnotFile⟩
        exact .of_overlay h (fun _ => id) _
      · have hunsafe : ¬ (fs.Apart (fs.locate src) (fs.locate dst) (fs.locate src)
            ∨ src.isStartOf dst = true ∧ src.same dst = false) := fun h =>
          h.elim hapart hrefused
        refine (moveDir_empties hfs src dst hdir).mono (fun _ fs' hgone => ?_)
          fun _ _ _ => ⟨fun h => absurd h hunsafe, fun hfile => absurd hfile hnotFile⟩
        refine ⟨fun hkeeps => absurd ?_ hapart, fun h => absurd h hunsafe⟩
        -- a copy that fell at or below the source is gone with it, and so is its original
        rintro q ⟨below, b, hb, rfl⟩ ⟨rest, hrest⟩
        rcases hkeeps below b hb with hold | hnew
        · rw [FileSystem.entryAt?_below_none hgone] at hold
          cases hold
        · rw [← hrest, FileSystem.entryAt?_below_none hgone] at hnew
          cases hnew
  · have hfile : fs.isFile src = true := by
      obtain ⟨hleads, hne, hslash⟩ := (FileSystem.exists?_iff hfs).1 hsrc
      have hnotDir : fs.entryAt? (fs.locate src) ≠ some .dir := fun h =>
        hdir ((FileSystem.isDir_iff hfs).2 ⟨hleads, h⟩)
      obtain ⟨e, he⟩ := Option.ne_none_iff_exists'.1 hne
      refine (FileSystem.isFile_iff hfs).2 ⟨hleads, ?_, ?_⟩
      · rw [Bool.eq_false_iff]
        exact fun h => hnotDir (hslash h)
      · rcases hfs.dir_or_file he with rfl | ⟨b, rfl⟩
        · exact absurd he hnotDir
        · exact ⟨b, he⟩
    rw [FileSystem.MoveIsSafe, if_neg hdir]
    exact (moveFile_ends hfs src dst hfile).mono (fun _ _ h => h)
      fun _ _ h => ⟨h.2, fun _ => h.1⟩

/-! ### A directory moved onto itself -/

def folder : FileSystem := ((FileSystem.empty []).setDir ["d"]).setFile ["d", "a"] ⟨#[49]⟩

theorem folder_plain : folder.Plain := by
  have hslot : (FileSystem.empty []).Slot ([] ++ ["d"]) := ⟨rfl, by decide⟩
  have hmade : Grows (FileSystem.empty []) ((FileSystem.empty []).setDir ["d"]) :=
    .setDir FileSystem.plain_empty hslot rfl
  have hslot' : ((FileSystem.empty []).setDir ["d"]).Slot (["d"] ++ ["a"]) := ⟨rfl, by decide⟩
  have hput : Overlay (fun _ => True) ((FileSystem.empty []).setDir ["d"]) folder :=
    .setFile hmade.plain hslot' (fun h => by cases h) trivial _
  exact hput.plain

/-- On a disk with one file in a directory, the theorem says that the move of the directory onto
itself, which succeeds, loses the file. -/
theorem folder_onto_itself :
    folder.Plain ∧ folder.exists? ⟨"/d"⟩ = true
      ∧ Ends (moveEntry ⟨"/d"⟩ ⟨"/d"⟩) folder
          (fun _ fs' =>
            folder.KeepsFiles fs' (folder.locate ⟨"/d"⟩)
                (folder.locate (folder.moveTarget ⟨"/d"⟩ ⟨"/d"⟩))
              ↔ folder.MoveIsSafe ⟨"/d"⟩ ⟨"/d"⟩)
          (fun _ fs' =>
            (folder.MoveIsSafe ⟨"/d"⟩ ⟨"/d"⟩ →
              folder.KeepsFiles fs' (folder.locate ⟨"/d"⟩)
                (folder.locate (folder.moveTarget ⟨"/d"⟩ ⟨"/d"⟩)))
            ∧ (folder.isFile ⟨"/d"⟩ = true →
              folder.KeepsFiles fs' (folder.locate ⟨"/d"⟩)
                  (folder.locate (folder.moveTarget ⟨"/d"⟩ ⟨"/d"⟩)) →
                folder.MoveIsSafe ⟨"/d"⟩ ⟨"/d"⟩)) :=
  ⟨folder_plain, by decide +kernel,
    moveEntry_keeps_files_iff_safe folder_plain ⟨"/d"⟩ ⟨"/d"⟩ (by decide +kernel)⟩

/-- **A directory moved onto itself is lost.** The copy finds nothing to do, and then the
directory is deleted. -/
theorem moveEntry_onto_itself_loses_files :
    ¬ ∀ (fs : FileSystem) (src dst : HostPath), fs.Plain → fs.exists? src = true →
      Ends (moveEntry src dst) fs
        (fun _ fs' => fs.KeepsFiles fs' (fs.locate src) (fs.locate (fs.moveTarget src dst)))
        (fun _ fs' => fs.KeepsFiles fs' (fs.locate src) (fs.locate (fs.moveTarget src dst))) := by
  intro hall
  have hkeeps := hall folder ⟨"/d"⟩ ⟨"/d"⟩ folder_plain (by decide +kernel)
  have hempties := moveDir_empties folder_plain ⟨"/d"⟩ ⟨"/d"⟩ (by decide +kernel)
  have hplace : folder.locate ⟨"/d"⟩ = ["d"] := by decide +kernel
  have htarget : folder.moveTarget ⟨"/d"⟩ ⟨"/d"⟩ = ⟨"/d"⟩ := by
    rw [FileSystem.moveTarget, if_pos (by decide +kernel)]
  have hreturns : (match moveEntry ⟨"/d"⟩ ⟨"/d"⟩ folder with
      | .ok _ _ => true
      | .error _ _ => false) = true := by decide +kernel
  cases hrun : moveEntry ⟨"/d"⟩ ⟨"/d"⟩ folder with
  | error e fs' =>
      rw [hrun] at hreturns
      cases hreturns
  | ok _ fs' =>
      have hgone := hempties.of_ok hrun
      have hkept := hkeeps.of_ok hrun
      rw [htarget, hplace] at hkept
      rw [hplace] at hgone
      have hfile := hkept ["a"] ⟨#[49]⟩ rfl
      rw [or_self, FileSystem.entryAt?_below_none hgone] at hfile
      cases hfile

end FileAction

end PackageScript
