import PackageScript.Proofs.Files.Copy
import PackageScript.Proofs.Files.Ways

set_option autoImplicit false

/-! # One tree laid over another

A tree is laid over another by putting what stands below its place at the same names below
another place (`FileSystem.Laid`). What is laid is told by the names that lead to it, and
everything that these names do not tell stays. So a tree can be laid piece by piece, in any order,
as long as no piece is laid over the tree itself (`FileSystem.Laid.trans`). A file that is copied
is the smallest piece: `copyFile_eq_ok_iff` says when it is copied and what is there afterwards.
-/

namespace PackageScript

namespace FileSystem

variable {fs fs' fs'' : FileSystem} {P Q : Place → Prop} {src dst place : Place}

/-- **What stands below `src` has been laid below `dst`**, as far as `P` tells the names below,
and nothing else has changed. -/
structure Laid (P : Place → Prop) (src dst : Place) (fs fs' : FileSystem) : Prop where
  plain : fs'.Plain
  home : fs'.home = fs.home
  dirs : ∀ q, fs.entryAt? q = some .dir → fs'.entryAt? q = some .dir
  made : ∀ below, P below → fs'.entryAt? (dst ++ below) = fs.entryAt? (src ++ below)
  rest : ∀ q, (∀ below, P below → q ≠ dst ++ below) → fs'.entryAt? q = fs.entryAt? q

namespace Laid

theorem overlay (h : Laid P src dst fs fs') : Overlay (fun _ => True) fs fs' :=
  ⟨h.plain, h.home, h.dirs, fun _ hq => absurd trivial hq⟩

theorem none (hfs : fs.Plain) (hP : ∀ below, ¬ P below) : Laid P src dst fs fs :=
  ⟨hfs, rfl, fun _ h => h, fun below h => absurd h (hP below), fun _ _ => rfl⟩

theorem congr (h : Laid P src dst fs fs') (hPQ : ∀ below, P below ↔ Q below) :
    Laid Q src dst fs fs' := by
  obtain rfl : P = Q := funext fun below => propext (hPQ below)
  exact h

theorem source (h : Laid P src dst fs fs') (hfree : ∀ below, P below → ¬ src <+: dst ++ below)
    (below : Place) : fs'.entryAt? (src ++ below) = fs.entryAt? (src ++ below) :=
  h.rest _ fun more hmore heq => hfree more hmore (heq ▸ List.prefix_append src below)

/-- **A tree is laid piece by piece.** -/
theorem trans (h : Laid P src dst fs fs') (h' : Laid Q src dst fs' fs'')
    (hfree : ∀ below, P below → ¬ src <+: dst ++ below) :
    Laid (fun below => P below ∨ Q below) src dst fs fs'' where
  plain := h'.plain
  home := h'.home.trans h.home
  dirs q hq := h'.dirs q (h.dirs q hq)
  made below hbelow := by
    -- the second piece may be laid over the first one, which then is the same there
    by_cases hQ : Q below
    · rw [h'.made below hQ, h.source hfree]
    · have hother : ∀ more, Q more → dst ++ below ≠ dst ++ more := by
        intro more hmore heq
        rw [List.append_cancel_left_eq] at heq
        exact hQ (heq ▸ hmore)
      rw [h'.rest _ hother, h.made below (hbelow.resolve_right hQ)]
  rest q hq := by
    rw [h'.rest q fun below hQ => hq below (Or.inr hQ),
      h.rest q fun below hP => hq below (Or.inl hP)]

theorem above {names : Place} (h : Laid P (src ++ names) (dst ++ names) fs fs') :
    Laid (fun below => ∃ more, below = names ++ more ∧ P more) src dst fs fs' where
  plain := h.plain
  home := h.home
  dirs := h.dirs
  made below hbelow := by
    obtain ⟨more, rfl, hmore⟩ := hbelow
    rw [← List.append_assoc, ← List.append_assoc]
    exact h.made more hmore
  rest q hq := h.rest q fun more hmore heq =>
    hq (names ++ more) ⟨more, rfl, hmore⟩ (heq.trans (List.append_assoc dst names more))

theorem dir (hfs : fs.Plain) {below : Place} (hdst : fs.entryAt? (dst ++ below) = some .dir)
    (hsrc : fs.entryAt? (src ++ below) = some .dir) : Laid (Eq below) src dst fs fs :=
  ⟨hfs, rfl, fun _ h => h, fun _ h => h ▸ hdst.trans hsrc.symm, fun _ _ => rfl⟩

theorem setFile (hfs : fs.Plain) {below : Place} {b : ByteArray} (hslot : fs.Slot (dst ++ below))
    (hnot : fs.entryAt? (dst ++ below) ≠ some .dir)
    (hfile : fs.entryAt? (src ++ below) = some (.file b)) :
    Laid (Eq below) src dst fs (fs.setFile (dst ++ below) b) := by
  have hover : Overlay (fun _ => True) fs (fs.setFile (dst ++ below) b) :=
    .setFile hfs hslot hnot trivial b
  have hentry := entryAt?_setFile hslot hnot b
  refine ⟨hover.plain, rfl, hover.dirs, ?_, fun q hq => ?_⟩
  · rintro _ rfl
    rw [hentry, if_pos rfl, hfile]
  · rw [hentry, if_neg (hq below rfl)]

theorem setDir (hfs : fs.Plain) {below : Place} (hslot : fs.Slot (dst ++ below))
    (hnone : fs.entryAt? (dst ++ below) = Option.none)
    (hdir : fs.entryAt? (src ++ below) = some .dir) :
    Laid (Eq below) src dst fs (fs.setDir (dst ++ below)) := by
  have hgrows : Grows fs (fs.setDir (dst ++ below)) := Overlay.setDir hfs hslot hnone
  have hentry := entryAt?_setDir hslot hnone
  refine ⟨hgrows.plain, rfl, Overlay.dirs hgrows, ?_, fun q hq => ?_⟩
  · rintro _ rfl
    rw [hentry, if_pos rfl, hdir]
  · rw [hentry, if_neg (hq below rfl)]

/-- A tree is laid on the way that was opened to its place, if the way was open up to the last
name. -/
theorem of_opened (h : Opened dst fs fs') (h' : Laid P src dst fs' fs'') (hP : P [])
    (hdir : ∀ q, q <+: dst → q ≠ dst → fs.entryAt? q = some .dir) (hfree : ¬ src <+: dst) :
    Laid P src dst fs fs'' where
  plain := h'.plain
  home := h'.home.trans (Overlay.home h.grows)
  dirs q hq := h'.dirs q (Overlay.dirs h.grows q hq)
  made below hbelow := by
    rw [h'.made below hbelow, h.rest _ fun hp => hfree ((List.prefix_append src below).trans hp)]
  rest q hq := by
    rw [h'.rest q hq]
    by_cases hp : q <+: dst
    · rw [h.way q hp, hdir q hp fun heq => hq [] hP (heq.trans (List.append_nil dst).symm)]
    · exact h.rest q hp

end Laid

theorem erase_of_vacant (hnone : fs.entryAt? place = none) (hslot : fs'.Slot place)
    (hhome : fs'.home = fs.home) (hrest : ∀ q, q ≠ place → fs'.entryAt? q = fs.entryAt? q) :
    fs'.erase place = fs := by
  refine ext_of_entryAt? hhome fun q => ?_
  rw [entryAt?_erase hslot]
  split
  · next hp =>
      obtain ⟨more, rfl⟩ := hp
      exact (entryAt?_below_none hnone more).symm
  · next hp =>
      exact hrest q fun heq => hp (heq ▸ List.prefix_rfl)

theorem setFile_self {b : ByteArray} (hslot : fs.Slot place)
    (h : fs.entryAt? place = some (.file b)) : fs.setFile place b = fs := by
  refine ext_of_entryAt? rfl fun q => ?_
  rw [entryAt?_setFile hslot (by rw [h]; simp)]
  split
  · next heq => rw [heq, h]
  · rfl

/-- What stood or was made at a place before is written over. -/
theorem setFile_setFile {b : ByteArray} (hhome : fs'.home = fs.home)
    (hother : ∀ q, q ≠ place → fs'.entryAt? q = fs.entryAt? q) (hslot' : fs'.Slot place)
    (hnot' : fs'.entryAt? place ≠ some .dir) (hslot : fs.Slot place)
    (hnot : fs.entryAt? place ≠ some .dir) :
    (fs'.setFile place .empty).setFile place b = fs.setFile place b := by
  have hempty := entryAt?_setFile hslot' hnot' .empty
  have hslot2 : (fs'.setFile place .empty).Slot place := hslot'.mono fun q hq => by
    have hne : q ≠ place := by
      rintro rfl
      exact hnot' hq
    rw [hempty, if_neg hne, hq]
  refine ext_of_entryAt? hhome fun q => ?_
  rw [entryAt?_setFile hslot2 (by rw [hempty, if_pos rfl]; simp), hempty,
    entryAt?_setFile hslot hnot]
  split
  · rfl
  · next hne => rw [hother q hne]

end FileSystem

namespace FileAction

open FileSystem (Overlay Grows Opened Laid)

variable {fs fs' fs'' : FileSystem} {src dst p : HostPath}

/-! ## One file -/

theorem clearFile_eq_ok_iff (hfs : fs.Plain) :
    clearFile p fs = .ok () fs' ↔ fs' = if fs.isFile p then fs.erase (fs.locate p) else fs := by
  rw [clearFile, FileSystem.isNonDir_eq_isFile hfs]
  by_cases hfile : fs.isFile p = true
  · rw [if_pos hfile, if_pos hfile, removeFile_eq_ok hfs hfile]
    exact ⟨fun h => by cases h; rfl, fun h => by rw [h]⟩
  · rw [if_neg hfile, if_neg hfile]
    exact ⟨fun h => by cases h; rfl, fun h => by rw [h]⟩

theorem createFile_eq_ok_iff (hfs : fs.Plain) {place : Place} :
    createFile p fs = .ok place fs'
      ↔ fs.Leads p ∧ p.endsWithSlash = false ∧ place = fs.locate p
        ∧ fs.entryAt? place ≠ some .dir ∧ fs' = fs.setFile place .empty := by
  rw [createFile]
  constructor
  · intro h
    split at h
    · cases h
    · next hplace =>
        cases h
        obtain ⟨hleads, hslash, hloc, hnot⟩ := (writePlace_eq_ok_iff hfs).1 hplace
        exact ⟨hleads, hslash, hloc, hnot, rfl⟩
  · rintro ⟨hleads, hslash, hloc, hnot, rfl⟩
    rw [(writePlace_eq_ok_iff hfs).2 ⟨hleads, hslash, hloc, hnot⟩]

/-- A file is put at a place that may hold a file already: that one is taken away, and an empty
one is made and written to. -/
theorem replaceFile_eq_ok_iff (hfs : fs.Plain) (b : ByteArray) :
    (∃ fs1 place fs2, clearFile p fs = .ok () fs1 ∧ createFile p fs1 = .ok place fs2
        ∧ fs' = fs2.setFile place b)
      ↔ fs.Leads p ∧ p.endsWithSlash = false ∧ fs.entryAt? (fs.locate p) ≠ some .dir
        ∧ fs' = fs.setFile (fs.locate p) b := by
  by_cases hfile : fs.isFile p = true
  · obtain ⟨hleads, hslash, c, hc⟩ := (FileSystem.isFile_iff hfs).1 hfile
    have hnot : fs.entryAt? (fs.locate p) ≠ some .dir := by rw [hc]; simp
    have hslot := hleads.slot hfs hnot
    have hentry := FileSystem.entryAt?_erase hslot
    have hover : Overlay (fun _ => True) fs (fs.erase (fs.locate p)) :=
      .eraseFile hfs hslot hc trivial
    have hnone : (fs.erase (fs.locate p)).entryAt? (fs.locate p) ≠ some .dir := by
      rw [hentry, if_pos List.prefix_rfl]
      simp
    have hother : ∀ q, q ≠ fs.locate p →
        (fs.erase (fs.locate p)).entryAt? q = fs.entryAt? q := by
      intro q hne
      rw [hentry]
      split
      · next hp =>
          apply Decidable.byContradiction
          intro hq
          obtain ⟨below, rfl⟩ := hp
          rw [FileSystem.eq_nil_of_below_file hc (Ne.symm hq), List.append_nil] at hne
          exact hne rfl
      · rfl
    -- all three steps come to one
    have hwhole : ((fs.erase (fs.locate p)).setFile (fs.locate p) .empty).setFile (fs.locate p) b
        = fs.setFile (fs.locate p) b :=
      FileSystem.setFile_setFile rfl hother (hslot.mono hover.dirs) hnone hslot hnot
    constructor
    · rintro ⟨fs1, place, fs2, hclear, hcreate, rfl⟩
      rw [clearFile_eq_ok_iff hfs, if_pos hfile] at hclear
      subst hclear
      obtain ⟨-, -, rfl, -, rfl⟩ := (createFile_eq_ok_iff hover.plain).1 hcreate
      rw [hover.locate]
      exact ⟨hleads, hslash, hnot, hwhole⟩
    · rintro ⟨-, -, -, rfl⟩
      exact ⟨_, fs.locate p, _, (clearFile_eq_ok_iff hfs).2 (if_pos hfile).symm,
        (createFile_eq_ok_iff hover.plain).2 ⟨hover.leads hleads, hslash, rfl, hnone, rfl⟩,
        hwhole.symm⟩
  · -- no file is in the way, so nothing is taken away first
    have hwhole : fs.Slot (fs.locate p) → fs.entryAt? (fs.locate p) ≠ some .dir →
        (fs.setFile (fs.locate p) .empty).setFile (fs.locate p) b = fs.setFile (fs.locate p) b :=
      fun hslot hnot => FileSystem.setFile_setFile rfl (fun _ _ => rfl) hslot hnot hslot hnot
    constructor
    · rintro ⟨fs1, place, fs2, hclear, hcreate, rfl⟩
      rw [clearFile_eq_ok_iff hfs, if_neg hfile] at hclear
      subst hclear
      obtain ⟨hleads, hslash, rfl, hnot, rfl⟩ := (createFile_eq_ok_iff hfs).1 hcreate
      exact ⟨hleads, hslash, hnot, hwhole (hleads.slot hfs hnot) hnot⟩
    · rintro ⟨hleads, hslash, hnot, rfl⟩
      exact ⟨_, fs.locate p, _, (clearFile_eq_ok_iff hfs).2 (if_neg hfile).symm,
        (createFile_eq_ok_iff hfs).2 ⟨hleads, hslash, rfl, hnot, rfl⟩,
        (hwhole (hleads.slot hfs hnot) hnot).symm⟩

/-- **When a file is copied, and what is there afterwards**: the directory around its new place
has been made, and the file stands there. -/
theorem copyFile_eq_ok_iff (hfs : fs.Plain) (hother : src.same dst = false) {n : Nat} :
    copyFile src dst fs = .ok n fs'
      ↔ ∃ b fs1, fs.isFile src = true ∧ fs.entryAt? (fs.locate src) = some (.file b)
        ∧ n = b.size ∧ ensureParent dst fs = .ok () fs1 ∧ fs1.Leads dst
        ∧ dst.endsWithSlash = false ∧ fs1.entryAt? (fs1.locate dst) ≠ some .dir
        ∧ fs' = fs1.setFile (fs1.locate dst) b := by
  have hgrows : ∀ {fs1}, ensureParent dst fs = .ok () fs1 → Grows fs fs1 := fun h =>
    (ensureParent_ends hfs dst).of_ok h
  rw [copyFile, if_neg (by simp [hother]), bind_eq_ok_iff]
  constructor
  · rintro ⟨⟨place, source⟩, fs0, hask, hrest⟩
    obtain ⟨hstat, rfl⟩ := ask_eq_ok_iff.1 hask
    obtain ⟨⟨⟩, fs1, hparent, hrest⟩ := bind_eq_ok_iff.1 hrest
    obtain ⟨⟨⟩, fs2, hclear, hrest⟩ := bind_eq_ok_iff.1 hrest
    obtain ⟨place', fs3, hcreate, hwrite⟩ := bind_eq_ok_iff.1 hrest
    obtain ⟨hleads, rfl, hnode, hslash⟩ := (FileSystem.stat_eq_ok_iff hfs).1 hstat
    cases source with
    | dir es => cases hwrite
    | link t => cases hwrite
    | file b =>
        obtain ⟨⟨⟩, fs4, hwrite, hpure⟩ := bind_eq_ok_iff.1 hwrite
        cases hwrite
        cases hpure
        have hfile := FileSystem.entryAt?_eq_file_iff.2 hnode
        have hput := (replaceFile_eq_ok_iff (hgrows hparent).plain b).1
          ⟨fs2, place', fs3, hclear, hcreate, rfl⟩
        refine ⟨b, fs1, (FileSystem.isFile_iff hfs).2 ⟨hleads, ?_, b, hfile⟩, hfile, rfl, hparent,
          hput⟩
        rw [Bool.eq_false_iff]
        exact fun hs => by cases hslash hs
  · rintro ⟨b, fs1, hsource, hfile, rfl, hparent, hput⟩
    obtain ⟨hleads, hslash, -⟩ := (FileSystem.isFile_iff hfs).1 hsource
    obtain ⟨fs2, place, fs3, hclear, hcreate, rfl⟩ :=
      (replaceFile_eq_ok_iff (hgrows hparent).plain b).2 hput
    have hstat : fs.stat src = .ok (fs.locate src, .file b) :=
      (FileSystem.stat_eq_ok_iff hfs).2 ⟨hleads, rfl, FileSystem.entryAt?_eq_file_iff.1 hfile,
        fun hs => by rw [hslash] at hs; cases hs⟩
    exact ⟨(fs.locate src, .file b), fs, ask_eq_ok_iff.2 ⟨hstat, rfl⟩,
      bind_eq_ok_iff.2 ⟨(), fs1, hparent, bind_eq_ok_iff.2 ⟨(), fs2, hclear,
        bind_eq_ok_iff.2 ⟨place, fs3, hcreate, bind_eq_ok_iff.2 ⟨(), _, rfl, rfl⟩⟩⟩⟩⟩

theorem ensureParent_again {W : Place → Prop} (hfs : fs.Plain)
    (h : ensureParent p fs = .ok () fs') (hover : Overlay W fs' fs'') :
    ensureParent p fs'' = .ok () fs'' := by
  rw [ensureParent] at h ⊢
  cases hparent : p.parent? with
  | none => rfl
  | some parent =>
      rw [hparent] at h
      exact createDirAll_again hfs h hover

/-- **A file that has been copied is copied again without any change**, as long as it is still at
both places. -/
theorem copyFile_again {W : Place → Prop} (hfs : fs.Plain) (hother : src.same dst = false) {n : Nat}
    (h : copyFile src dst fs = .ok n fs') (hover : Overlay W fs' fs'')
    (hsrc : fs''.entryAt? (fs.locate src) = fs.entryAt? (fs.locate src))
    (hdst : fs''.entryAt? (fs.locate dst) = fs.entryAt? (fs.locate src)) :
    copyFile src dst fs'' = .ok n fs'' := by
  obtain ⟨b, fs1, hfile, hb, rfl, hparent, hleads, hslash, hnot, rfl⟩ :=
    (copyFile_eq_ok_iff hfs hother).1 h
  obtain ⟨hleadsSrc, hslashSrc, -⟩ := (FileSystem.isFile_iff hfs).1 hfile
  have hgrows : Grows fs fs1 := (ensureParent_ends hfs dst).of_ok hparent
  have hslot := hleads.slot hgrows.plain hnot
  have hover1 : Overlay (fun _ => True) fs1 fs'' :=
    (Overlay.setFile hgrows.plain hslot hnot trivial b).trans (hover.mono fun _ _ => trivial)
  have hover0 : Overlay (fun _ => True) fs fs'' := hgrows.overlay.trans hover1
  rw [hb] at hsrc hdst
  refine (copyFile_eq_ok_iff hover.plain hother).2 ⟨b, fs'', ?_, ?_, rfl,
    ensureParent_again hfs hparent hover1, hover1.leads hleads, hslash, ?_, ?_⟩
  · refine (FileSystem.isFile_iff hover.plain).2 ⟨hover0.leads hleadsSrc, hslashSrc, b, ?_⟩
    rw [hover0.locate, hsrc]
  · rw [hover0.locate, hsrc]
  · rw [hover0.locate, hdst]
    simp
  · have hplace := hdst
    rw [← hover0.locate] at hplace
    exact (FileSystem.setFile_self
      ((hover1.leads hleads).slot hover.plain (by rw [hplace]; simp)) hplace).symm

end FileAction

end PackageScript
