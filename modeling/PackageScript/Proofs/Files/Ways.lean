import PackageScript.Proofs.Files.Below
import PackageScript.Proofs.Files.Directories
import PackageScript.Proofs.Files.Extensionality

set_option autoImplicit false

/-! # The way to a directory

Making a directory with its parents opens the way to the place of its path: afterwards there is a
directory at the place and at every place above it, and nowhere else has anything changed
(`FileSystem.Opened`). This holds of paths without `..`; behind a `..` the way there and back is
made too. A directory that is made once is found every time after that, so that making it again
changes nothing (`createDirAll_again`).
-/

namespace PackageScript

namespace FileSystem

variable {fs fs' fs'' : FileSystem} {place above : Place} {p : HostPath}

/-- **The way to a place has been opened**: directories have been made at the place and above it
where nothing stood, and nothing else has changed. -/
structure Opened (place : Place) (fs fs' : FileSystem) : Prop where
  grows : Grows fs fs'
  way : ∀ q, q <+: place → fs'.entryAt? q = some .dir
  rest : ∀ q, ¬ q <+: place → fs'.entryAt? q = fs.entryAt? q

theorem dir_of_prefix_dir (h : fs.entryAt? place = some .dir) {q : Place} (hq : q <+: place) :
    fs.entryAt? q = some .dir := by
  by_cases heq : q = place
  · rw [heq, h]
  · exact dir_of_prefix hq heq (by rw [h]; simp)

namespace Opened

theorem refl (hfs : fs.Plain) (h : fs.entryAt? place = some .dir) : Opened place fs fs :=
  ⟨.refl hfs, fun _ hq => dir_of_prefix_dir h hq, fun _ _ => rfl⟩

theorem setDir (hfs : fs.Plain) (hslot : fs.Slot place) (hnone : fs.entryAt? place = none) :
    Opened place fs (fs.setDir place) := by
  have hentry := entryAt?_setDir hslot hnone
  have hgrows : Grows fs (fs.setDir place) := Overlay.setDir hfs hslot hnone
  obtain @⟨dir, name, hdir, -⟩ := hslot
  refine ⟨hgrows, fun q hq => ?_, fun q hq => ?_⟩
  · rw [hentry q]
    by_cases heq : q = dir ++ [name]
    · rw [if_pos heq]
    · rw [if_neg heq]
      rw [List.prefix_concat_iff] at hq
      exact dir_of_prefix_dir hdir (hq.resolve_left heq)
  · rw [hentry q, if_neg]
    rintro rfl
    exact hq List.prefix_rfl

theorem trans (h : Opened above fs fs') (h' : Opened place fs' fs'') (hp : above <+: place) :
    Opened place fs fs'' :=
  ⟨h.grows.trans h'.grows, h'.way, fun q hq =>
    (h'.rest q hq).trans (h.rest q fun hq' => hq (hq'.trans hp))⟩

theorem eq_of_dir (h : Opened place fs fs') (hdir : fs.entryAt? place = some .dir) :
    fs' = fs := by
  refine ext_of_entryAt? (Overlay.home h.grows) fun q => ?_
  by_cases hq : q <+: place
  · rw [h.way q hq, dir_of_prefix_dir hdir hq]
  · exact h.rest q hq

end Opened

theorem Overlay.isDir {W : Place → Prop} (h : Overlay W fs fs') (hfs : fs.Plain)
    (hdir : fs.isDir p = true) : fs'.isDir p = true := by
  obtain ⟨hleads, hentry⟩ := (isDir_iff hfs).1 hdir
  exact (isDir_iff h.plain).2 ⟨h.leads hleads, by rw [h.locate]; exact h.dirs _ hentry⟩

end FileSystem

namespace FileAction

open FileSystem (Opened Overlay Grows)

variable {fs fs' : FileSystem} {p : HostPath} {name : String}

/-- What the making of a directory is relied on for: the directory is there, its path starts from
a directory, and if no part leads up, nothing but the way to it has been made. -/
structure MadeWay (p : HostPath) (fs fs' : FileSystem) : Prop where
  plain : fs'.Plain
  home : fs'.home = fs.home
  isDir : fs'.isDir p = true
  origin_dir : fs.entryAt? (fs.origin p) = some .dir
  opened : ".." ∉ p.parts → Opened (fs.locate p) fs fs'

/-- Behind the directory around a path comes the path itself. -/
theorem MadeWay.trans {fs1 fs2 : FileSystem} {ps : List String} {last : String}
    (hparts : p.parts = ps ++ [last]) (hps : ps ≠ []) (h : MadeWay (.ofParts ps) fs fs1)
    (h' : MadeWay p fs1 fs2) : MadeWay p fs fs2 := by
  have hfront : ps <+: p.parts := by
    rw [hparts]
    exact List.prefix_append ps _
  refine ⟨h'.plain, h'.home.trans h.home, h'.isDir, ?_, fun hdots => ?_⟩
  · rw [← fs.origin_ofParts hfront hps]
    exact h.origin_dir
  · have hopened := h.opened (by
      rw [HostPath.parts_ofParts hfront]
      exact fun hmem => hdots (hfront.subset hmem))
    have hopened' := h'.opened hdots
    rw [FileSystem.locate_congr h.home] at hopened'
    refine hopened.trans hopened' (fs.locate_ofParts_prefix hparts hps ?_)
    rintro rfl
    exact hdots (by rw [hparts]; simp)

theorem makeOrFind_makesWay (hfs : fs.Plain) (p : HostPath) :
    Ends (makeOrFind p) fs (fun _ fs' => MadeWay p fs fs') (fun _ _ => True) := by
  refine makeOrFind_cases (fun fs' hrun => ?_) (fun hdir => ?_) fun _ _ => trivial
  · obtain ⟨hleads, hnone, rfl⟩ := (makeDir_eq_ok_iff hfs).1 hrun
    have hslot := hleads.slot hfs (by rw [hnone]; simp)
    have hopened := Opened.setDir hfs hslot hnone
    refine ⟨hopened.grows.plain, rfl, ?_, hleads.origin_dir, fun _ => hopened⟩
    exact (FileSystem.isDir_iff hopened.grows.plain).2
      ⟨Overlay.leads hopened.grows hleads, hopened.way _ List.prefix_rfl⟩
  · obtain ⟨hleads, hentry⟩ := (FileSystem.isDir_iff hfs).1 hdir
    exact ⟨hfs, rfl, hdir, hleads.origin_dir, fun _ => .refl hfs hentry⟩

theorem makeDirs_makesWay (hfs : fs.Plain) {p : HostPath} {last : String} {above : List String}
    (hparts : p.parts = above.reverse ++ [last]) :
    Ends (makeDirs p above) fs (fun _ fs' => MadeWay p fs fs') (fun _ _ => True) := by
  induction above generalizing fs p last with
  | nil => exact makeOrFind_makesWay hfs p
  | cons part above ih =>
      have hne : (part :: above).reverse ≠ [] := by simp
      have hfront : (part :: above).reverse <+: p.parts := by
        rw [hparts]
        exact List.prefix_append _ _
      have hback : (HostPath.ofParts (part :: above).reverse).parts = above.reverse ++ [part] := by
        rw [HostPath.parts_ofParts hfront, List.reverse_cons]
      refine makeDirs_cons_ends (makeOrFind_makesWay hfs p)
        ((ih hfs hback).mono (fun _ fs1 h1 => ?_) fun _ _ _ => trivial)
      exact (makeOrFind_makesWay h1.plain p).mono
        (fun _ fs2 h2 => h1.trans hparts hne h2) fun _ _ _ => trivial

/-- **Making a directory makes the way to it**, and nothing else unless a part leads up. -/
theorem createDirAll_makesWay (hfs : fs.Plain) (hp : p.text ≠ "")
    (h : createDirAll p fs = .ok () fs') : MadeWay p fs fs' := by
  rw [createDirAll] at h
  cases hparts : p.parts.reverse with
  | nil => exact absurd (HostPath.parts_eq_nil_iff.1 (List.reverse_eq_nil_iff.1 hparts)) hp
  | cons last above =>
      rw [hparts] at h
      have hsplit : p.parts = above.reverse ++ [last] := by
        rw [← List.reverse_reverse p.parts, hparts, List.reverse_cons]
      exact (makeDirs_makesWay hfs hsplit).of_ok h

theorem createDirAll_of_empty (h : p.text = "") : createDirAll p fs = .ok () fs := by
  rw [createDirAll, HostPath.parts_eq_nil_iff.2 h]
  rfl

theorem createDirAll_of_alreadyExists (hmake : makeDir p fs = .error .alreadyExists fs)
    (h : fs.isDir p = true) : createDirAll p fs = .ok () fs := by
  rw [createDirAll]
  cases p.parts.reverse with
  | nil => rfl
  | cons last above =>
      dsimp only
      cases above <;> simp only [makeDirs, hmake, if_pos h]

/-- **A directory that is there is not made.** -/
theorem createDirAll_of_isDir (hfs : fs.Plain) (h : fs.isDir p = true) :
    createDirAll p fs = .ok () fs :=
  createDirAll_of_alreadyExists (makeDir_of_isDir hfs h) h

/-- **A directory is made where nothing stands**, and nothing around it if its way is open. -/
theorem createDirAll_of_vacant (hfs : fs.Plain) (hleads : fs.Leads p)
    (hnone : fs.entryAt? (fs.locate p) = none) :
    createDirAll p fs = .ok () (fs.setDir (fs.locate p)) := by
  have hmake := (makeDir_eq_ok_iff hfs).2 ⟨hleads, hnone, rfl⟩
  rw [createDirAll]
  cases hparts : p.parts.reverse with
  | nil =>
      exact absurd (HostPath.parts_eq_nil_iff.1 (List.reverse_eq_nil_iff.1 hparts))
        hleads.usable.ne_empty
  | cons last above =>
      dsimp only
      cases above <;> simp only [makeDirs, hmake]

/-- A directory that has been made is not made again, whatever was laid over the tree since. -/
theorem createDirAll_again {W : Place → Prop} {fs'' : FileSystem} (hfs : fs.Plain)
    (h : createDirAll p fs = .ok () fs') (hover : Overlay W fs' fs'') :
    createDirAll p fs'' = .ok () fs'' := by
  by_cases hp : p.text = ""
  · exact createDirAll_of_empty hp
  · have hway := createDirAll_makesWay hfs hp h
    exact createDirAll_of_isDir hover.plain (hover.isDir hway.plain hway.isDir)

/-! ## The directory around a path -/

theorem ensureParent_child (p : HostPath) (hname : IsPart name) :
    ensureParent (p.child name) = createDirAll (.ofParts p.parts) := by
  rw [ensureParent, p.parent?_child hname]

/-- Nothing is made around a path below a directory. -/
theorem eq_of_ensureParent_child (hfs : fs.Plain) (hname : IsPart name) (hdots : ".." ∉ p.steps)
    (hdir : fs.entryAt? (fs.locate p) = some .dir)
    (h : ensureParent (p.child name) fs = .ok () fs') : fs' = fs := by
  rw [ensureParent_child p hname] at h
  by_cases hempty : (HostPath.ofParts p.parts).text = ""
  · rw [createDirAll_of_empty hempty] at h
    cases h
    rfl
  · have hopened := (createDirAll_makesWay hfs hempty h).opened (by
      rw [HostPath.parts_ofParts List.prefix_rfl]
      exact HostPath.dots_not_mem_parts hdots)
    rw [fs.locate_ofParts_parts p] at hopened
    exact hopened.eq_of_dir hdir

theorem ensureParent_child_of_isDir (hfs : fs.Plain) (hname : IsPart name)
    (h : fs.isDir p = true) : ensureParent (p.child name) fs = .ok () fs := by
  obtain ⟨hleads, hdir⟩ := (FileSystem.isDir_iff hfs).1 h
  have hparts : p.parts ≠ [] := fun hnil =>
    hleads.usable.ne_empty (HostPath.parts_eq_nil_iff.1 hnil)
  rw [ensureParent_child p hname]
  refine createDirAll_of_isDir hfs ((FileSystem.isDir_iff hfs).2 ⟨hleads.ofParts hparts, ?_⟩)
  rw [fs.locate_ofParts_parts p]
  exact hdir

end FileAction

end PackageScript
