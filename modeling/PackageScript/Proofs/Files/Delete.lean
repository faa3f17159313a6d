import PackageScript.Files.Delete
import PackageScript.Proofs.Files.Operations

set_option autoImplicit false

/-! # What a deletion takes away

Deleting a tree takes away nothing but what stands at or below the place that its path spells,
however it ends. If it returns, nothing stands there any more.
-/

namespace PackageScript

namespace FileAction

open FileSystem (Prunes)

variable {fs : FileSystem}

theorem deleteEntries_ends {delete : HostPath → FileAction Unit} (dir : HostPath)
    (hdelete : ∀ (fs : FileSystem) (p : HostPath), fs.Plain →
      Ends (delete p) fs (fun _ fs' => Prunes (fs.locate p) fs fs')
        (fun _ fs' => Prunes (fs.locate p) fs fs'))
    (entries : List (String × Entry)) (hfs : fs.Plain) (hnames : ∀ e ∈ entries, IsName e.1) :
    Ends (deleteEntries delete dir entries) fs (fun _ fs' => Prunes (fs.locate dir) fs fs')
      (fun _ fs' => Prunes (fs.locate dir) fs fs') := by
  induction entries generalizing fs with
  | nil => exact Prunes.refl hfs
  | cons entry rest ih =>
      obtain ⟨name, e⟩ := entry
      have hplace := fs.locate_child dir (hnames (name, e) List.mem_cons_self).toIsPart
      have htop : fs.locate dir <+: fs.locate (dir.child name) := by
        rw [hplace]
        exact List.prefix_append _ _
      refine Ends.bind ((hdelete fs (dir.child name) hfs).mono (fun _ fs1 h1 => ?_)
        fun _ _ h1 => h1.mono htop)
      have hrest := ih h1.plain fun e he => hnames e (List.mem_cons_of_mem _ he)
      rw [h1.locate] at hrest
      exact hrest.mono (fun _ _ h => (h1.mono htop).trans h) fun _ _ h => (h1.mono htop).trans h

/-- **A deletion takes nothing but its own tree**, and if it returns, all of it. -/
theorem deleteTreeTo_ends (depth : Nat) (p : HostPath) (hfs : fs.Plain) :
    Ends (deleteTreeTo depth p) fs
      (fun _ fs' => Prunes (fs.locate p) fs fs'
        ∧ (fs.exists? p = true → fs'.entryAt? (fs.locate p) = none))
      (fun _ fs' => Prunes (fs.locate p) fs fs') := by
  induction depth generalizing fs p with
  | zero => exact Prunes.refl hfs
  | succ depth ih =>
      dsimp only [Ends, deleteTreeTo]
      cases hstat : fs.lstat p with
      | error e =>
          -- without links `lstat` finds all that `stat` finds, so nothing exists here
          have hgone : fs.exists? p = true → fs.entryAt? (fs.locate p) = none := by
            intro hex
            rw [FileSystem.exists?] at hex
            cases hs : fs.stat p with
            | error e' => rw [hs] at hex; cases hex
            | ok found =>
                rw [(FileSystem.lstat_eq_ok_iff hfs).2 hs] at hstat
                cases hstat
          cases e with
          | notFound => exact ⟨.refl hfs, hgone⟩
          | _ => exact Prunes.refl hfs
      | ok found =>
          obtain ⟨place, node⟩ := found
          have hremove : Ends (removeFile p) fs
              (fun _ fs' => Prunes (fs.locate p) fs fs'
                ∧ (fs.exists? p = true → fs'.entryAt? (fs.locate p) = none))
              (fun _ fs' => Prunes (fs.locate p) fs fs') := by
            refine (removeFile_ends hfs p).mono ?_ ?_
            · rintro _ _ ⟨hfile, rfl⟩
              obtain ⟨hleads, -, b, hb⟩ := (FileSystem.isFile_iff hfs).1 hfile
              have hslot := hleads.slot hfs (by rw [hb]; simp)
              refine ⟨.erase hfs hslot, fun _ => ?_⟩
              rw [FileSystem.entryAt?_erase hslot, if_pos List.prefix_rfl]
            · rintro _ _ rfl
              exact .refl hfs
          cases node with
          | file b => exact hremove
          | link t => exact hremove
          | dir es =>
              dsimp only
              cases hlist : fs.readDir p with
              | error e => exact Prunes.refl hfs
              | ok entries =>
                  -- the entries go first, and then the directory, if it is empty by now
                  have hinside := deleteEntries_ends p
                    (fun fs p hfs => (ih p hfs).mono (fun _ _ h => h.1) fun _ _ h => h)
                    entries hfs fun e he => FileSystem.isName_of_mem_readDir hfs hlist he
                  dsimp only
                  cases hrun : deleteEntries (deleteTreeTo depth) p entries fs with
                  | error e fs1 => exact hinside.of_error hrun
                  | ok _ fs1 =>
                      have h1 := hinside.of_ok hrun
                      have hlast := removeDir_ends h1.plain p
                      rw [h1.locate] at hlast
                      refine hlast.mono ?_ ?_
                      · rintro _ _ ⟨hslot, -, rfl⟩
                        refine ⟨h1.trans (.erase h1.plain hslot), fun _ => ?_⟩
                        rw [FileSystem.entryAt?_erase hslot, if_pos List.prefix_rfl]
                      · rintro _ _ rfl
                        exact h1

end FileAction

end PackageScript
