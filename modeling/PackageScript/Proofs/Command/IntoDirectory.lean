import PackageScript.Proofs.Command.DeletedMatches
import PackageScript.Proofs.Files.Relocation

set_option autoImplicit false

/-! # A slash at the end

A file that is copied or moved to a path with a slash at its end is meant to land inside the
directory that the path names. What decides about this is the host path: the file lands inside if
that ends in a slash, or if it leads to a directory once its parents are made
(`FileAction.landsInside_iff`). The slash of the script path is the last character of the host
path, so the two agree, but for one script path: the bare mark of a volume stands for the root of
the volume as it is configured, and a root that is written without a slash and does not exist yet
is taken for the place of the file itself (`Setting.lands_inside_iff`).
-/

namespace PackageScript

/-! ## Paths that lead to a file -/

namespace FileSystem

variable {fs fs' : FileSystem} {p src dst : HostPath} {place : Place} {b : ByteArray}

/-- All names of a way but the last lead to a directory. -/
theorem Walkable.dir_of_concat {names : List String} {last : String}
    (hdir : fs.entryAt? place = some .dir) (h : fs.Walkable place (names ++ [last])) :
    fs.entryAt? (names.foldl Place.step place) = some .dir := by
  induction names generalizing place with
  | nil => exact hdir
  | cons n rest ih =>
      rw [List.cons_append] at h
      unfold Walkable at h
      rw [List.foldl_cons, Place.step]
      by_cases hdot : n = "."
      · rw [if_pos hdot] at h ⊢
        exact ih hdir h
      rw [if_neg hdot] at h ⊢
      by_cases hdots : n = ".."
      · rw [if_pos hdots] at h ⊢
        exact ih (dir_dropLast hdir) h
      · rw [if_neg hdots] at h ⊢
        obtain ⟨-, hnil | ⟨hnext, hrest⟩⟩ := h
        · simp at hnil
        · exact ih hnext hrest

/-- A path that leads to a file ends in its name: behind `.` and `..` stand directories only. -/
theorem endsInName_of_file (hleads : fs.Leads p)
    (hfile : fs.entryAt? (fs.locate p) = some (.file b)) : FileAction.endsInName p = true := by
  have hnotDir : fs.entryAt? (fs.locate p) ≠ some .dir := by
    rw [hfile]
    simp
  have hwalk := hleads.walkable
  rw [FileAction.endsInName]
  split
  next hnil =>
    rw [List.getLast?_eq_none_iff] at hnil
    rw [locate, hnil] at hnotDir
    exact absurd hleads.origin_dir hnotDir
  next last hlast =>
    obtain ⟨front, hsteps⟩ := List.getLast?_eq_some_iff.1 hlast
    rw [hsteps] at hwalk
    have hfront := Walkable.dir_of_concat hleads.origin_dir hwalk
    rw [locate, hsteps, List.foldl_concat] at hnotDir
    rw [Bool.and_eq_true, bne_iff_ne, bne_iff_ne]
    constructor
    · rintro rfl
      exact hnotDir hfront
    · rintro rfl
      exact hnotDir (dir_dropLast hfront)

/-- **The file at one path has landed inside the directory at another**, under its own name. -/
structure LandsInside (fs fs' : FileSystem) (src dst : HostPath) : Prop where
  dir : fs'.entryAt? (fs.locate dst) = some .dir
  file : ∃ name b, src.fileName? = some name ∧ fs.entryAt? (fs.locate src) = some (.file b)
    ∧ fs'.entryAt? (fs.locate dst ++ [name]) = some (.file b)

end FileSystem

/-! ## Where a file lands -/

namespace FileAction

open FileSystem (Grows Overlay LandsInside Shrinks)

variable {fs fs' : FileSystem} {src dst target : HostPath} {b : ByteArray}

/-- A file that is renamed is at its new place, also if that is the old one. -/
theorem file_of_rename (hfs : fs.Plain) (h : rename src dst fs = .ok () fs') :
    fs'.home = fs.home ∧ ∃ b, fs.entryAt? (fs.locate src) = some (.file b)
      ∧ fs'.entryAt? (fs.locate dst) = some (.file b) := by
  by_cases hsame : fs.locate dst = fs.locate src
  · obtain ⟨-, -, -, b, hb, ⟨-, rfl⟩ | ⟨hne, -⟩⟩ := (rename_ends hfs src dst).of_ok h
    · exact ⟨rfl, b, hb, by rw [hsame]; exact hb⟩
    · exact absurd hsame hne
  · obtain ⟨-, hhome, b, hb, hentry⟩ := rename_moves hfs hsame h
    exact ⟨hhome, b, hb, by rw [hentry, if_pos rfl]⟩

/-- A file for which its new place is cleared first comes there with the bytes that it had. -/
theorem file_of_clearAndRename (hfs : fs.Plain)
    (hb : fs.entryAt? (fs.locate src) = some (.file b))
    (h : (do clearTarget target; ensureParent target; rename src target) fs = .ok () fs') :
    fs'.entryAt? (fs.locate target) = some (.file b) := by
  obtain ⟨⟨⟩, fs1, hclear, h⟩ := bind_eq_ok_iff.1 h
  obtain ⟨⟨⟩, fs2, hparent, hrename⟩ := bind_eq_ok_iff.1 h
  obtain ⟨hplain1, hhome1, -⟩ := clearTarget_clears hfs hclear
  have hgrows : Grows fs1 fs2 := (ensureParent_ends hplain1 target).of_ok hparent
  obtain ⟨-, c, hc, htarget⟩ := file_of_rename hgrows.plain hrename
  have hlocate : ∀ p, fs2.locate p = fs.locate p := fun p =>
    (hgrows.locate p).trans (FileSystem.locate_congr hhome1 p)
  rw [hlocate] at hc htarget
  -- what is renamed has been there all along, since clearing only takes away
  have hshrinks : Shrinks fs fs1 := by
    rw [(clearTarget_ends hfs target).of_ok hclear]
    split
    · exact .erase fs _
    · exact .refl fs
  have hold := hshrinks.eq_some (hgrows.file_iff.1 hc)
  rw [hb] at hold
  cases hold
  exact htarget

/-- **A file that is moved lands** where the path says once its parents are made. -/
theorem file_of_moveEntry (hfs : fs.Plain) (hb : fs.entryAt? (fs.locate src) = some (.file b))
    (h : moveEntry src dst fs = .ok () fs') :
    fs'.entryAt? (fs.locate ((fs.withParent dst).landing src dst)) = some (.file b) := by
  obtain ⟨⟨place, node⟩, fs0, hask, hrun⟩ := bind_eq_ok_iff.1 h
  obtain ⟨hstat, hsame⟩ := ask_eq_ok_iff.1 hask
  rw [hsame] at hrun
  obtain ⟨⟨⟩, fs1, hparent, hmove⟩ := bind_eq_ok_iff.1 hrun
  obtain ⟨-, rfl, hnode, -⟩ := (FileSystem.stat_eq_ok_iff hfs).1 hstat
  have hgrows : Grows fs fs1 := (ensureParent_ends hfs dst).of_ok hparent
  have hwith : fs.withParent dst = fs1 := by rw [FileSystem.withParent, hparent]
  rw [FileSystem.entryAt?_eq_file_iff.1 hb] at hnode
  cases hnode
  have hrename : (do
      clearTarget (fs1.landing src dst)
      ensureParent (fs1.landing src dst)
      rename src (fs1.landing src dst)) fs1 = .ok () fs' := hmove
  rw [hwith, ← hgrows.locate]
  refine file_of_clearAndRename hgrows.plain ?_ hrename
  rw [hgrows.locate]
  exact hgrows.file_iff.2 hb

/-- A file that is copied is at its new place, also if that is the old one. -/
theorem file_of_copyFile (hfs : fs.Plain) {n : Nat}
    (hb : fs.entryAt? (fs.locate src) = some (.file b)) (h : copyFile src dst fs = .ok n fs') :
    fs'.entryAt? (fs.locate dst) = some (.file b) := by
  by_cases hsame : src.same dst = true
  · rw [copyFile, if_pos hsame] at h
    obtain ⟨-, hkept⟩ := ask_eq_ok_iff.1 h
    rw [hkept, ← fs.locate_eq_of_same hsame]
    exact hb
  · rw [Bool.not_eq_true] at hsame
    obtain ⟨c, fs1, -, hc, -, hparent, hleads, -, hnot, rfl⟩ := (copyFile_eq_ok_iff hfs hsame).1 h
    have hgrows : Grows fs fs1 := (ensureParent_ends hfs dst).of_ok hparent
    rw [hb] at hc
    cases hc
    rw [FileSystem.entryAt?_setFile (hleads.slot hgrows.plain hnot) hnot, hgrows.locate, if_pos rfl]

theorem grows_withParent (hfs : fs.Plain) (dst : HostPath) : Grows fs (fs.withParent dst) := by
  rw [FileSystem.withParent]
  cases hparent : ensureParent dst fs with
  | ok a fs1 => exact (ensureParent_ends hfs dst).of_ok hparent
  | error e fs1 => exact (ensureParent_ends hfs dst).of_error hparent

/-- Where a file has come by a copy, no directory was when the parents were made. -/
theorem isDir_withParent_of_copyFile (hfs : fs.Plain) {n : Nat}
    (hb : fs.entryAt? (fs.locate src) = some (.file b)) (h : copyFile src dst fs = .ok n fs') :
    (fs.withParent dst).isDir dst = false := by
  have hgrows := grows_withParent hfs dst
  have hnot : (fs.withParent dst).entryAt? (fs.locate dst) ≠ some .dir := by
    by_cases hsame : src.same dst = true
    · rw [← fs.locate_eq_of_same hsame, hgrows.file_iff.2 hb]
      simp
    · rw [Bool.not_eq_true] at hsame
      obtain ⟨-, fs1, -, -, -, hparent, -, -, hnot, -⟩ := (copyFile_eq_ok_iff hfs hsame).1 h
      have hwith : fs.withParent dst = fs1 := by rw [FileSystem.withParent, hparent]
      rw [hwith] at hgrows ⊢
      rw [← hgrows.locate]
      exact hnot
  rw [← Bool.not_eq_true]
  intro hdir
  obtain ⟨-, hdir⟩ := (FileSystem.isDir_iff hgrows.plain).1 hdir
  exact hnot (by rw [← hgrows.locate]; exact hdir)

/-- **A file that is copied lands** where it would land if it were moved. -/
theorem file_of_copyPlain (hfs : fs.Plain) (hb : fs.entryAt? (fs.locate src) = some (.file b))
    (h : Setting.copyPlain src dst fs = .ok () fs') :
    fs'.entryAt? (fs.locate ((fs.withParent dst).landing src dst)) = some (.file b) := by
  have hfile : fs.isDir src = false := by
    rw [← Bool.not_eq_true]
    intro hdir
    obtain ⟨-, hdir⟩ := (FileSystem.isDir_iff hfs).1 hdir
    cases hb.symm.trans hdir
  obtain ⟨n, hcopy⟩ : ∃ n, copyFile src (fs.landing src dst) fs = .ok n fs' := by
    obtain ⟨d, fs0, hlook, h⟩ := bind_eq_ok_iff.1 h
    obtain ⟨rfl, rfl⟩ : d = false ∧ fs = fs0 := by
      cases hlook
      exact ⟨hfile, rfl⟩
    rw [if_neg (by simp)] at h
    obtain ⟨target, fs0, hlook, h⟩ := bind_eq_ok_iff.1 h
    cases hlook
    obtain ⟨n, fs1, hcopy, hend⟩ := bind_eq_ok_iff.1 h
    cases hend
    exact ⟨n, hcopy⟩
  have hlanding : (fs.withParent dst).landing src dst = fs.landing src dst := by
    rw [FileSystem.landing, FileSystem.landing]
    by_cases hdir : fs.isDir dst = true
    · rw [hdir, Overlay.isDir (grows_withParent hfs dst) hfs hdir]
    · by_cases hslash : dst.endsWithSlash = true
      · rw [hslash, Bool.true_or, Bool.true_or]
      · rw [Bool.not_eq_true] at hdir hslash
        rw [FileSystem.landing, hdir, hslash, if_neg (by simp)] at hcopy
        rw [hdir, isDir_withParent_of_copyFile hfs hb hcopy]
  rw [hlanding]
  exact file_of_copyFile hfs hb hcopy

/-- **When a file lands inside the directory.** If it is where it lands by the rule, it is inside
exactly if the path ends in a slash or leads to a directory once its parents are made. -/
theorem landsInside_iff (hleads : fs.Leads src)
    (hb : fs.entryAt? (fs.locate src) = some (.file b))
    (h : fs'.entryAt? (fs.locate ((fs.withParent dst).landing src dst)) = some (.file b)) :
    LandsInside fs fs' src dst
      ↔ dst.endsWithSlash = true ∨ (fs.withParent dst).isDir dst = true := by
  rw [FileSystem.landing] at h
  constructor
  · intro hinside
    by_contra hnot
    rw [not_or, Bool.not_eq_true, Bool.not_eq_true] at hnot
    rw [hnot.1, hnot.2, if_neg (by simp)] at h
    cases h.symm.trans hinside.dir
  · intro hinto
    rw [← Bool.or_eq_true] at hinto
    obtain ⟨name, hname⟩ :=
      HostPath.exists_fileName?_of_endsInName (FileSystem.endsInName_of_file hleads hb)
    rw [if_pos hinto, HostPath.into_eq_child hname,
      fs.locate_child dst (HostPath.isPart_of_fileName? hname)] at h
    have hthere : fs'.entryAt? (fs.locate dst ++ [name]) ≠ none := by
      rw [h]
      simp
    exact ⟨FileSystem.dir_of_below hthere, name, b, hname, hb, h⟩

end FileAction

/-! ## The slash of a script path -/

/-- The host path of a script path with a slash at its end has that slash, too, if it is not the
root of a volume alone. -/
theorem Config.endsWithSlash_hostPath {config : Config} {path : String}
    (hslash : Text.endsWith path '/' = true) :
    (config.hostPath path).endsWithSlash = true
      ∨ ∃ v, config.volumes.find? (fun u => Text.startsWith path u.mark) = some v
        ∧ config.hostPath path = v.root := by
  cases hfind : config.volumes.find? (fun u => Text.startsWith path u.mark) with
  | none =>
      rw [hostPath_of_find?_eq_none hfind]
      exact Or.inl hslash
  | some v =>
      obtain ⟨rest, hsplit, hhost⟩ := hostPath_of_find?_eq_some hfind
      rw [hhost, Volume.locate]
      split
      · exact Or.inr ⟨v, rfl, rfl⟩
      next below hbelow =>
        left
        -- what stands below the root ends as the script path does
        obtain ⟨front, hfront⟩ : rest.dropWhile (· == '/') <:+ rest := List.dropWhile_suffix _
        obtain ⟨s, hs⟩ := HostPath.endsWithSlash_iff (p := ⟨path⟩).1 hslash
        obtain ⟨t, c, hc⟩ :=
          (List.eq_nil_or_concat (rest.dropWhile (· == '/'))).resolve_left hbelow
        have hlast : s ++ ['/'] = (v.mark.toList ++ front ++ t) ++ [c] := by
          rw [← hs, hsplit, ← hfront, hc]
          simp
        obtain ⟨-, hslash'⟩ := List.append_inj' hlast rfl
        obtain rfl : '/' = c := by simpa using hslash'
        rw [HostPath.join_eq _ (Volume.isRooted_dropWhile_slash rest), HostPath.endsWithSlash_iff]
        refine ⟨(v.root.text ++ v.root.gap).toList ++ t, ?_⟩
        rw [String.toList_append, String.toList_ofList, hc]
        simp

/-! ## The commands -/

namespace Setting

open FileSystem (LandsInside)

variable {s : Setting} {w w' : World} {src dst : String}

theorem copyPlain_of_copy_eq_ok (hplain : isPattern (scriptPath src) = false)
    (hexists : w.files.exists? (s.locate src) = true) (h : s.copy src dst w = .ok () w') :
    copyPlain (s.locate src) (s.locate dst) w.files = .ok () w'.files := by
  rw [copy, hplain, if_neg (by simp)] at h
  have hstep : (if w.files.exists? (s.locate src) = true then
      Action.files (copyPlain (s.locate src) (s.locate dst))
    else Action.note (.copyMissing (scriptPath src))) w = .ok () w' := h
  rw [if_pos hexists] at hstep
  exact Action.of_files_eq_ok hstep

theorem moveEntry_of_move_eq_ok (hplain : isPattern (scriptPath src) = false)
    (h : s.move src dst w = .ok () w') :
    FileAction.moveEntry (s.locate src) (s.locate dst) w.files = .ok () w'.files := by
  rw [move] at h
  by_cases hrefused : Guard.isDangerous (scriptPath src) = true
  · rw [if_pos hrefused] at h
    cases h
  rw [if_neg hrefused, hplain, if_neg (by simp)] at h
  have hstep : (if w.files.exists? (s.locate src) = true then
      Action.files (FileAction.moveEntry (s.locate src) (s.locate dst))
    else Action.fail (.doesNotExist (scriptPath src))) w = .ok () w' := h
  by_cases hexists : w.files.exists? (s.locate src) = true
  · rw [if_pos hexists] at hstep
    exact Action.of_files_eq_ok hstep
  · rw [if_neg hexists] at hstep
    cases hstep

/-- A script path stands for the root of a volume, and this is written without a slash at its end
and does not lead to a directory, not even once its parents are made. -/
def NamesBareRoot (s : Setting) (arg : String) (fs : FileSystem) : Prop :=
  ∃ v, s.config.volumes.find? (fun u => Text.startsWith (scriptPath arg) u.mark) = some v
    ∧ s.locate arg = v.root ∧ v.root.endsWithSlash = false
    ∧ (fs.withParent v.root).isDir v.root = false

/-- **A slash at the end means into this directory, but for a bare root.** In a tree without links,
a file that is copied or moved by a plain path to a script path with a slash at its end is
afterwards inside the directory that the script path stands for, under its own name, exactly if the
script path does not stand for the root of a volume that is written without a slash and leads to no
directory. -/
theorem lands_inside_iff (hfs : w.files.Plain) (hplain : isPattern (scriptPath src) = false)
    (hfile : w.files.isFile (s.locate src) = true)
    (hslash : Text.endsWith (scriptPath dst) '/' = true)
    (hrun : s.copy src dst w = .ok () w' ∨ s.move src dst w = .ok () w') :
    LandsInside w.files w'.files (s.locate src) (s.locate dst)
      ↔ ¬ s.NamesBareRoot dst w.files := by
  obtain ⟨hleads, hunslashed, b, hb⟩ := (FileSystem.isFile_iff hfs).1 hfile
  have hexists : w.files.exists? (s.locate src) = true := by
    refine (FileSystem.exists?_iff hfs).2 ⟨hleads, by rw [hb]; simp, fun hs => ?_⟩
    rw [hunslashed] at hs
    cases hs
  have hlanded : w'.files.entryAt? (w.files.locate
      ((w.files.withParent (s.locate dst)).landing (s.locate src) (s.locate dst)))
      = some (.file b) := by
    rcases hrun with hcopy | hmove
    · exact FileAction.file_of_copyPlain hfs hb (copyPlain_of_copy_eq_ok hplain hexists hcopy)
    · exact FileAction.file_of_moveEntry hfs hb (moveEntry_of_move_eq_ok hplain hmove)
  rw [FileAction.landsInside_iff hleads hb hlanded]
  constructor
  · rintro hinside ⟨v, -, hroot, hbare, hmissing⟩
    rw [hroot, hbare, hmissing] at hinside
    simp at hinside
  · intro hnot
    by_contra hneither
    rw [not_or, Bool.not_eq_true, Bool.not_eq_true] at hneither
    obtain ⟨hbare, hmissing⟩ := hneither
    rcases Config.endsWithSlash_hostPath hslash with hkept | ⟨v, hfind, hroot⟩
    · have hkept' : (s.locate dst).endsWithSlash = true := hkept
      rw [hbare] at hkept'
      cases hkept'
    · have hroot' : s.locate dst = v.root := hroot
      rw [hroot'] at hbare hmissing
      exact hnot ⟨v, hfind, hroot', hbare, hmissing⟩

open FileAction (folder folder_plain)

/-- Copied or moved to a directory that does not exist yet, a file is inside that directory. -/
theorem folder_file_lands_inside :
    (∃ w', onRootCard.copy "sdmc:/d/a" "sdmc:/new/" (.ofFiles folder) = .ok () w'
        ∧ LandsInside folder w'.files ⟨"/d/a"⟩ ⟨"/new/"⟩)
      ∧ ∃ w', onRootCard.move "sdmc:/d/a" "sdmc:/new/" (.ofFiles folder) = .ok () w'
        ∧ LandsInside folder w'.files ⟨"/d/a"⟩ ⟨"/new/"⟩ := by
  have hsrc : onRootCard.locate "sdmc:/d/a" = ⟨"/d/a"⟩ := by decide +kernel
  have hdst : onRootCard.locate "sdmc:/new/" = ⟨"/new/"⟩ := by decide +kernel
  have hfile : folder.isFile (onRootCard.locate "sdmc:/d/a") = true := by decide +kernel
  have hnot : ¬ onRootCard.NamesBareRoot "sdmc:/new/" folder := by
    rintro ⟨v, -, hroot, hbare, -⟩
    rw [← hroot, hdst] at hbare
    exact absurd hbare (by decide)
  have hlands : ∀ w', (onRootCard.copy "sdmc:/d/a" "sdmc:/new/" (.ofFiles folder) = .ok () w'
      ∨ onRootCard.move "sdmc:/d/a" "sdmc:/new/" (.ofFiles folder) = .ok () w') →
      LandsInside folder w'.files (onRootCard.locate "sdmc:/d/a")
        (onRootCard.locate "sdmc:/new/") := fun w' hrun =>
    (lands_inside_iff folder_plain (by decide +kernel) hfile (by decide +kernel) hrun).2 hnot
  rw [hsrc, hdst] at hlands
  obtain ⟨w1, hcopy⟩ := Action.exists_eq_ok_of_isOk (onRootCard.copy "sdmc:/d/a" "sdmc:/new/")
    (.ofFiles folder) (by decide +kernel)
  obtain ⟨w2, hmove⟩ := Action.exists_eq_ok_of_isOk (onRootCard.move "sdmc:/d/a" "sdmc:/new/")
    (.ofFiles folder) (by decide +kernel)
  exact ⟨⟨w1, hcopy, hlands w1 (Or.inl hcopy)⟩, w2, hmove, hlands w2 (Or.inr hmove)⟩

/-- **A slash at the end does not always mean into this directory.** If the directory of a card
does not exist yet, a file that is copied to the card, or moved there, takes its place. -/
theorem copy_to_bare_root_not_inside :
    ¬ ∀ (s : Setting) (w w' : World) (src dst : String), w.files.Plain →
      isPattern (scriptPath src) = false → w.files.isFile (s.locate src) = true →
      Guard.isDangerous (scriptPath src) = false →
      Text.endsWith (scriptPath dst) '/' = true →
      (s.copy src dst w = .ok () w' ∨ s.move src dst w = .ok () w') →
      LandsInside w.files w'.files (s.locate src) (s.locate dst) := by
  intro hall
  obtain ⟨w', hrun⟩ := Action.exists_eq_ok_of_isOk ((withCardAt ⟨"/new"⟩).copy "d/a" "sdmc:/")
    (.ofFiles folder) (by decide +kernel)
  have hafter : (((withCardAt ⟨"/new"⟩).copy "d/a" "sdmc:/").filesAfter
      (.ofFiles folder)).isDirAt ["new"] = false := by decide +kernel
  rw [Action.filesAfter_of_ok hrun] at hafter
  have hinside := hall _ (.ofFiles folder) w' "d/a" "sdmc:/" folder_plain
    (by decide +kernel) (by decide +kernel) (by decide +kernel) (by decide +kernel) (Or.inl hrun)
  have hplace : folder.locate ((withCardAt ⟨"/new"⟩).locate "sdmc:/") = ["new"] := by
    decide +kernel
  have hdir : w'.files.entryAt? (folder.locate ((withCardAt ⟨"/new"⟩).locate "sdmc:/"))
      = some .dir := hinside.dir
  rw [hplace] at hdir
  have hthere := FileAction.isDirAt_iff.2 hdir
  rw [hafter] at hthere
  cases hthere

end Setting

end PackageScript
