import PackageScript.Files.Directories
import PackageScript.Proofs.Files.Operations

set_option autoImplicit false

/-! # Making directories only makes directories

However the making of a directory with its parents ends, nothing happened but that directories
appeared where nothing stood (`Grows`). If it succeeds, there is a directory where its path
leads.
-/

namespace PackageScript

namespace FileSystem

variable {fs fs' fs'' : FileSystem}

/-- **A change that makes directories where nothing stood and does nothing else.** -/
def Grows (fs fs' : FileSystem) : Prop := Overlay (fun _ => False) fs fs'

namespace Grows

theorem refl (hfs : fs.Plain) : Grows fs fs := Overlay.refl hfs

theorem trans (h : Grows fs fs') (h' : Grows fs' fs'') : Grows fs fs'' := Overlay.trans h h'

theorem overlay {W : Place → Prop} (h : Grows fs fs') : Overlay W fs fs' :=
  Overlay.mono h fun _ => False.elim

theorem plain (h : Grows fs fs') : fs'.Plain := Overlay.plain h

theorem locate (h : Grows fs fs') (p : HostPath) : fs'.locate p = fs.locate p :=
  Overlay.locate h p

theorem file_iff (h : Grows fs fs') {q : Place} {b : ByteArray} :
    fs'.entryAt? q = some (.file b) ↔ fs.entryAt? q = some (.file b) :=
  Overlay.file_iff h id

end Grows

end FileSystem

namespace FileAction

open FileSystem (Grows)

variable {fs : FileSystem} {p : HostPath}

theorem makeDir_grows (hfs : fs.Plain) (p : HostPath) :
    Ends (makeDir p) fs
      (fun _ fs' => Grows fs fs' ∧ fs'.entryAt? (fs.locate p) = some .dir)
      (fun _ fs' => fs' = fs) := by
  refine (makeDir_ends hfs p).mono ?_ fun _ _ h => h
  rintro _ _ ⟨hslot, hnone, rfl⟩
  refine ⟨FileSystem.Overlay.setDir hfs hslot hnone, ?_⟩
  rw [FileSystem.entryAt?_setDir hslot hnone, if_pos rfl]

/-- Making a directory, or finding it there: the last step on every way to one. -/
def makeOrFind (p : HostPath) : FileAction Unit := fun fs =>
  match makeDir p fs with
  | .ok _ fs => .ok () fs
  | .error e fs => if fs.isDir p then .ok () fs else .error e fs

theorem makeOrFind_cases {ok : Unit → FileSystem → Prop} {err : FileError → FileSystem → Prop}
    (hmade : ∀ fs', makeDir p fs = .ok () fs' → ok () fs') (hfound : fs.isDir p = true → ok () fs)
    (hfailed : ∀ e, fs.isDir p = false → err e fs) : Ends (makeOrFind p) fs ok err := by
  dsimp only [Ends, makeOrFind]
  cases hrun : makeDir p fs with
  | ok _ fs' => exact hmade fs' hrun
  | error e fs' =>
      obtain rfl := (makeDir_makes p).of_error hrun
      dsimp only
      by_cases hdir : fs'.isDir p = true
      · rw [if_pos hdir]
        exact hfound hdir
      · rw [if_neg hdir]
        exact hfailed e (Bool.eq_false_iff.2 hdir)

/-- **A directory with its parents is made at once, or behind the directory around it.** -/
theorem makeDirs_cons_ends {part : String} {above : List String}
    {ok : Unit → FileSystem → Prop} {err : FileError → FileSystem → Prop}
    (honce : Ends (makeOrFind p) fs ok err)
    (hbehind : Ends (makeDirs (.ofParts (part :: above).reverse) above) fs
      (fun _ fs' => Ends (makeOrFind p) fs' ok err) err) :
    Ends (makeDirs p (part :: above)) fs ok err := by
  rw [makeDirs]
  dsimp only [Ends, makeOrFind] at honce hbehind ⊢
  cases hrun : makeDir p fs with
  | ok _ fs' =>
      rw [hrun] at honce
      exact honce
  | error e fs' =>
      obtain rfl := (makeDir_makes p).of_error hrun
      rw [hrun] at honce
      cases e with
      | notFound =>
          dsimp only
          cases habove : makeDirs (.ofParts (part :: above).reverse) above fs' with
          | ok _ fs1 =>
              rw [habove] at hbehind
              exact hbehind
          | error e fs1 =>
              rw [habove] at hbehind
              exact hbehind
      | _ => exact honce

theorem makeOrFind_ends (hfs : fs.Plain) (p : HostPath) :
    Ends (makeOrFind p) fs
      (fun _ fs' => Grows fs fs' ∧ fs'.entryAt? (fs.locate p) = some .dir)
      (fun _ fs' => Grows fs fs') :=
  makeOrFind_cases (fun _ => (makeDir_grows hfs p).of_ok)
    (fun hdir => ⟨.refl hfs, ((FileSystem.isDir_iff hfs).1 hdir).2⟩) fun _ _ => .refl hfs

theorem makeDirs_ends (hfs : fs.Plain) (p : HostPath) (above : List String) :
    Ends (makeDirs p above) fs
      (fun _ fs' => Grows fs fs' ∧ fs'.entryAt? (fs.locate p) = some .dir)
      (fun _ fs' => Grows fs fs') := by
  induction above generalizing fs p with
  | nil => exact makeOrFind_ends hfs p
  | cons part above ih =>
      refine makeDirs_cons_ends (makeOrFind_ends hfs p) ((ih hfs _).mono ?_ fun _ _ h => h)
      rintro _ fs1 ⟨hgrows, -⟩
      have hlast := makeOrFind_ends hgrows.plain p
      rw [hgrows.locate] at hlast
      exact hlast.mono (fun _ _ h => ⟨hgrows.trans h.1, h.2⟩) fun _ _ h => hgrows.trans h

theorem createDirAll_ends (hfs : fs.Plain) (p : HostPath) :
    Ends (createDirAll p) fs
      (fun _ fs' => Grows fs fs' ∧ (p.parts ≠ [] → fs'.entryAt? (fs.locate p) = some .dir))
      (fun _ fs' => Grows fs fs') := by
  rw [createDirAll]
  split
  · next hparts =>
      exact ⟨.refl hfs, fun hne => absurd (List.reverse_eq_nil_iff.1 hparts) hne⟩
  · next part above _ =>
      exact (makeDirs_ends hfs p above).mono (fun _ _ h => ⟨h.1, fun _ => h.2⟩) fun _ _ h => h

theorem ensureParent_ends (hfs : fs.Plain) (p : HostPath) :
    Ends (ensureParent p) fs (fun _ fs' => Grows fs fs') (fun _ fs' => Grows fs fs') := by
  rw [ensureParent]
  split
  · next parent _ =>
      exact (createDirAll_ends hfs parent).mono (fun _ _ h => h.1) fun _ _ h => h
  · exact FileSystem.Grows.refl hfs

end FileAction

end PackageScript
