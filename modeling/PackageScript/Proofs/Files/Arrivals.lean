import PackageScript.Proofs.Files.Reruns
import PackageScript.Proofs.Files.SelfCopies

set_option autoImplicit false

/-! # What a copy that returns has brought

A copy that returns has brought everything that was at or below its source: every directory, since
a directory once made stays (`dirs_of_copyTreeTo`), and every file, if no copy of a file goes into
the source. A copy onto the source itself, by another spelling of its path, is an exception: each
file is written over with its own bytes (`grows_of_copyTreeTo`).
-/

namespace PackageScript.FileAction

open FileSystem (Overlay Grows Copied)

variable {fs fs' : FileSystem} {src dst : HostPath} {name : String}

/-! ## Directories -/

/-- **All directories arrive.** -/
theorem dirs_of_copyTreeTo {depth : Nat} (hfs : fs.Plain) (hdst : dst.text ≠ "")
    (h : copyTreeTo depth src dst fs = .ok () fs') {below : Place}
    (hdir : fs.entryAt? (fs.locate src ++ below) = some .dir) :
    fs'.entryAt? (fs.locate dst ++ below) = some .dir := by
  induction depth generalizing fs src dst below fs' with
  | zero => cases h
  | succ depth ih =>
      by_cases hsame : src.same dst = true
      · rw [copyTreeTo] at h
        dsimp only at h
        rw [if_pos hsame] at h
        cases h
        rw [← fs.locate_eq_of_same hsame]
        exact hdir
      rw [Bool.not_eq_true] at hsame
      obtain ⟨-, fs1, entries, hmake, hlist, hcopy⟩ := (copyTreeTo_succ_eq_ok_iff hsame).1 h
      have hmade := (createDirAll_ends hfs dst).of_ok hmake
      have hplain := hmade.1.plain
      have hthere : fs1.entryAt? (fs.locate dst) = some .dir :=
        hmade.2 fun hnil => hdst (HostPath.parts_eq_nil_iff.1 hnil)
      have hnames : ∀ e ∈ entries, IsName e.1 := fun e he =>
        FileSystem.isName_of_mem_readDir hplain hlist he
      have hbelow : ∀ (fs1 fs2 : FileSystem) (rest : List (String × Entry)), fs1.Plain →
          (∀ e ∈ rest, IsName e.1) →
          copyEntries (copyTreeTo depth) src dst rest fs1 = .ok () fs2 →
          Overlay (fs1.locate dst <+: ·) fs1 fs2 := fun fs1 fs2 rest hfs1 hrest hrun =>
        (copyEntries_below (fun fs src dst hfs => copyTreeTo_below depth hfs src dst) src dst rest
          hfs1 hrest).of_ok hrun
      cases below with
      | nil =>
          rw [List.append_nil]
          exact (hbelow fs1 fs' entries hplain hnames hcopy).dirs _ hthere
      | cons first more =>
          -- the directory is at or below one of the entries that are listed
          have hfirst : fs1.entryAt? (fs1.locate src ++ [first]) = some .dir := by
            rw [hmade.1.locate]
            refine hmade.1.dirs _ (FileSystem.dir_of_prefix_dir hdir ?_)
            rw [List.prefix_append_right_inj, List.cons_prefix_cons]
            exact ⟨rfl, List.nil_prefix⟩
          have hmem := (FileSystem.mem_readDir hplain hlist).2 hfirst
          obtain ⟨before, after, rfl⟩ := List.append_of_mem hmem
          obtain ⟨fs2, fs3, hfront, hentry, hback⟩ := exists_entryCopied hcopy
          have hname : IsPart first := (hnames (first, .dir) (by simp)).toIsPart
          have hover := hbelow fs1 fs2 before hplain (fun e he => hnames e (by simp [he])) hfront
          have hlocate : ∀ p, fs2.locate p = fs.locate p := fun p =>
            (hover.locate p).trans (hmade.1.locate p)
          have hchild : fs2.entryAt? (fs2.locate (src.child first) ++ more) = some .dir := by
            rw [hlocate, fs.locate_child src hname, List.append_assoc]
            exact hover.dirs _ (hmade.1.dirs _ hdir)
          have hcopied := ih hover.plain (dst.text_child_ne_empty hname.toIsSegment) hentry hchild
          rw [hlocate, fs.locate_child dst hname, List.append_assoc] at hcopied
          have hplain3 : fs3.Plain :=
            ((copyTreeTo_below depth hover.plain _ _).of_ok hentry).plain
          exact (hbelow fs3 fs' after hplain3 (fun e he => hnames e (by simp [he])) hback).dirs _
            hcopied

/-! ## Onto the source -/

/-- A file that is copied onto itself has its bytes. -/
theorem grows_of_copyFile (hfs : fs.Plain) (hplace : fs.locate src = fs.locate dst) {n : Nat}
    (h : copyFile src dst fs = .ok n fs') : Grows fs fs' := by
  by_cases hsame : src.same dst = true
  · rw [copyFile, if_pos hsame] at h
    obtain ⟨-, rfl⟩ := ask_eq_ok_iff.1 h
    exact .refl hfs
  · rw [Bool.not_eq_true] at hsame
    obtain ⟨b, fs1, -, hb, -, hparent, hleads, -, hnot, rfl⟩ := (copyFile_eq_ok_iff hfs hsame).1 h
    have hgrows : Grows fs fs1 := (ensureParent_ends hfs dst).of_ok hparent
    have hb' : fs1.entryAt? (fs1.locate dst) = some (.file b) := by
      rw [hgrows.locate, ← hplace]
      exact hgrows.file_iff.2 hb
    rw [FileSystem.setFile_self (hleads.slot hgrows.plain hnot) hb']
    exact hgrows

theorem grows_of_copyEntries {copyDir : HostPath → HostPath → FileAction Unit}
    (hcopyDir : ∀ (fs fs' : FileSystem) (src dst : HostPath), fs.Plain →
      fs.locate src = fs.locate dst → copyDir src dst fs = .ok () fs' → Grows fs fs')
    {entries : List (String × Entry)} (hfs : fs.Plain) (hplace : fs.locate src = fs.locate dst)
    (hnames : ∀ e ∈ entries, IsName e.1)
    (h : copyEntries copyDir src dst entries fs = .ok () fs') : Grows fs fs' := by
  induction entries generalizing fs with
  | nil =>
      cases h
      exact .refl hfs
  | cons entry rest ih =>
      obtain ⟨name, e⟩ := entry
      have hname : IsPart name := (hnames (name, e) List.mem_cons_self).toIsPart
      obtain ⟨fs1, hentry, hrest⟩ := copyEntries_cons_eq_ok_iff.1 h
      have hchildren : fs.locate (src.child name) = fs.locate (dst.child name) := by
        rw [fs.locate_child src hname, fs.locate_child dst hname, hplace]
      have hgrows : Grows fs fs1 := by
        cases e with
        | dir => exact hcopyDir _ _ _ _ hfs hchildren hentry
        | file b =>
            obtain ⟨n, hcopy⟩ := hentry
            exact grows_of_copyFile hfs hchildren hcopy
        | link t =>
            obtain ⟨n, hcopy⟩ := hentry
            exact grows_of_copyFile hfs hchildren hcopy
      refine hgrows.trans (ih hgrows.plain ?_
        (fun e' he' => hnames e' (List.mem_cons_of_mem _ he')) hrest)
      rw [hgrows.locate, hgrows.locate, hplace]

/-- **A tree that is copied onto itself keeps its files.** -/
theorem grows_of_copyTreeTo (depth : Nat) (hfs : fs.Plain) (hplace : fs.locate src = fs.locate dst)
    (h : copyTreeTo depth src dst fs = .ok () fs') : Grows fs fs' := by
  induction depth generalizing fs src dst fs' with
  | zero => cases h
  | succ depth ih =>
      by_cases hsame : src.same dst = true
      · rw [copyTreeTo] at h
        dsimp only at h
        rw [if_pos hsame] at h
        cases h
        exact .refl hfs
      rw [Bool.not_eq_true] at hsame
      obtain ⟨-, fs1, entries, hmake, hlist, hcopy⟩ := (copyTreeTo_succ_eq_ok_iff hsame).1 h
      obtain ⟨hgrows, -⟩ := (createDirAll_ends hfs dst).of_ok hmake
      refine hgrows.trans (grows_of_copyEntries (fun fs fs' src dst hfs hplace hrun =>
        ih hfs hplace hrun) hgrows.plain ?_ (fun e he =>
        FileSystem.isName_of_mem_readDir hgrows.plain hlist he) hcopy)
      rw [hgrows.locate, hgrows.locate, hplace]

/-! ## A match -/

/-- **A match that is copied arrives** with everything in it, if it is copied onto itself or none of
its files is copied into it. -/
theorem copyEntry_arrives (hfs : fs.Plain) (hdst : dst.text ≠ "")
    (hself : fs.locate dst = fs.locate src
      ∨ fs.Apart (fs.locate src) (fs.locate dst) (fs.locate src))
    (h : copyEntry src dst fs = .ok () fs') {below : Place} {e : Entry}
    (he : fs.entryAt? (fs.locate src ++ below) = some e) :
    fs'.entryAt? (fs.locate dst ++ below) = some e := by
  rcases (copyEntry_eq_ok_iff hfs).1 h with ⟨-, hcopy⟩ | ⟨hfile, n, hcopy⟩
  · rcases hfs.dir_or_file he with rfl | ⟨b, rfl⟩
    · exact dirs_of_copyTreeTo hfs hdst hcopy he
    rcases hself with hplace | hapart
    · rw [hplace]
      exact (grows_of_copyTreeTo pathLimit hfs hplace.symm hcopy).file_iff.2 he
    · obtain ⟨-, hcopied⟩ := (copyTreeTo_copies pathLimit fs src dst hfs hapart).of_ok hcopy
      exact hcopied below b he
  · obtain ⟨-, -, b, hb⟩ := (FileSystem.isFile_iff hfs).1 hfile
    obtain rfl := FileSystem.eq_nil_of_below_file hb (by rw [he]; simp)
    rw [List.append_nil] at he ⊢
    rw [hb] at he
    cases he
    exact ((copyFile_ends hfs src dst).of_ok hcopy).2 b hb

/-- However the copy of a match ends, it has written at or below its new place. -/
theorem copyEntry_below (hfs : fs.Plain) (src dst : HostPath) :
    Ends (copyEntry src dst) fs (fun _ fs' => Overlay (fs.locate dst <+: ·) fs fs')
      (fun _ fs' => Overlay (fs.locate dst <+: ·) fs fs') := by
  have hplace : ∀ q, fs.locate dst = q → fs.locate dst <+: q := fun q hq => hq ▸ List.prefix_rfl
  refine Ends.bind (ends_ask (fun found _ => ?_) fun _ _ => .refl hfs)
  have hfile : Ends (do let _ ← copyFile src dst) fs
      (fun _ fs' => Overlay (fs.locate dst <+: ·) fs fs')
      (fun _ fs' => Overlay (fs.locate dst <+: ·) fs fs') :=
    Ends.bind ((copyFile_ends hfs src dst).mono (fun _ _ h => h.1.mono hplace)
      fun _ _ h => h.mono hplace)
  obtain ⟨place, node⟩ := found
  cases node with
  | dir es => exact copyTreeTo_below pathLimit hfs src dst
  | file b => exact hfile
  | link t => exact hfile

end PackageScript.FileAction
