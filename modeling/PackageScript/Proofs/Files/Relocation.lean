import PackageScript.Proofs.Files.Growth
import PackageScript.Proofs.Files.Move
import PackageScript.Proofs.Files.TreeCopies

set_option autoImplicit false

/-! # Moving to a separate place

A directory is moved by copying it and deleting it, a file by clearing its new place and renaming
it. If the new place is apart from the old one, both ways come to the same
(`FileAction.moveEntry_relocates`): what stood at and below the old place stands at and below the
new one, next to what was there, and nothing else has happened but that directories have been made
on the way (`FileSystem.Paved`). Where the entry goes is told by the disk as it is at first
(`FileSystem.destination`), since making the directories around a path does not make the path a
directory (`FileAction.isDir_of_ensureParent`).
-/

namespace PackageScript

namespace HostPath

variable {p dst src : HostPath} {name : String}

theorem isPart_of_fileName? (h : p.fileName? = some name) : IsPart name := by
  unfold fileName? at h
  split at h
  · next last hlast =>
      split at h
      · cases h
      · next hnot =>
          cases h
          simp only [not_or] at hnot
          have hmem := (mem_parts (List.mem_of_getLast? hlast)).resolve_left hnot.1
          exact ⟨isSegment_of_mem_steps hmem, hnot.2.1, hnot.2.2⟩
  · cases h

theorem exists_fileName?_of_endsInName (h : FileAction.endsInName p = true) :
    ∃ name, p.fileName? = some name := by
  rw [FileAction.endsInName] at h
  split at h
  · cases h
  next last hlast =>
  rw [Bool.and_eq_true, bne_iff_ne, bne_iff_ne] at h
  obtain ⟨front, hsteps⟩ := List.getLast?_eq_some_iff.1 hlast
  have hkept : [last].filter (· != ".") = [last] := by simp [h.1]
  have hparts : p.parts.getLast? = some last := by
    by_cases hrooted : p.isRooted = true
    · rw [parts_of_rooted hrooted, hsteps, List.filter_append, hkept, ← List.cons_append,
        List.getLast?_concat]
    · rw [Bool.not_eq_true] at hrooted
      cases front with
      | nil =>
          rw [parts_of_relative hrooted hsteps, List.filter_nil, List.getLast?_singleton]
      | cons first more =>
          rw [List.cons_append] at hsteps
          rw [parts_of_relative hrooted hsteps, List.filter_append, hkept,
            ← List.cons_append, List.getLast?_concat]
  have hslash : last ≠ "/" := by
    rintro rfl
    exact (isSegment_of_mem_steps (List.mem_of_getLast? hlast)).no_slash (by decide)
  exact ⟨last, by rw [fileName?, hparts]; simp [hslash, h.1, h.2]⟩

theorem into_eq_child (h : src.fileName? = some name) : dst.into src = dst.child name := by
  rw [into, h]

theorem into_cases (dst src : HostPath) :
    dst.into src = dst ∨ ∃ name, IsPart name ∧ dst.into src = dst.child name := by
  cases h : src.fileName? with
  | none => exact Or.inl (by rw [into, h])
  | some name => exact Or.inr ⟨name, isPart_of_fileName? h, into_eq_child h⟩

end HostPath

namespace FileSystem

variable {fs fs' : FileSystem} {p : HostPath} {place : Place}

/-! ## Ways -/

/-- **Directories have been made at places on the way to a place**, and nothing else has changed. -/
structure Paved (place : Place) (fs fs' : FileSystem) : Prop where
  grows : Grows fs fs'
  rest : ∀ q, ¬ q <+: place → fs'.entryAt? q = fs.entryAt? q

namespace Paved

theorem refl (hfs : fs.Plain) (place : Place) : Paved place fs fs := ⟨.refl hfs, fun _ _ => rfl⟩

theorem of_opened (h : Opened place fs fs') : Paved place fs fs' := ⟨h.grows, h.rest⟩

theorem mono {above : Place} (h : Paved above fs fs') (hp : above <+: place) :
    Paved place fs fs' :=
  ⟨h.grows, fun q hq => h.rest q fun hq' => hq (hq'.trans hp)⟩

theorem plain (h : Paved place fs fs') : fs'.Plain := h.grows.plain

theorem home (h : Paved place fs fs') : fs'.home = fs.home := Overlay.home h.grows

theorem entry (h : Paved place fs fs') (q : Place) : fs'.entryAt? q = fs.entryAt? q
    ∨ q <+: place ∧ fs.entryAt? q = none ∧ fs'.entryAt? q = some .dir := by
  by_cases hq : q <+: place
  · exact (Overlay.rest h.grows q id).imp id fun hmade => ⟨hq, hmade⟩
  · exact Or.inl (h.rest q hq)

theorem entry_of_disjoint (h : Paved place fs fs') {other : Place}
    (hdisjoint : Place.Disjoint other place) (below : Place) :
    fs'.entryAt? (other ++ below) = fs.entryAt? (other ++ below) :=
  h.rest _ fun hp => hdisjoint.1 ((List.prefix_append other below).trans hp)

theorem entry_below (h : Paved place fs fs') {below : Place} (hne : below ≠ []) :
    fs'.entryAt? (place ++ below) = fs.entryAt? (place ++ below) := by
  refine h.rest _ fun hp => hne (List.eq_nil_of_length_eq_zero ?_)
  have hlength := hp.length_le
  rw [List.length_append] at hlength
  omega

end Paved

/-- Names lead on to a directory that stands where they say, if they do not go up. -/
theorem walkable_of_foldl_dir (hfs : fs.Plain) {names : List String} (hdots : ".." ∉ names)
    (hdir : fs.entryAt? (names.foldl Place.step place) = some .dir) : fs.Walkable place names := by
  induction names generalizing place with
  | nil => trivial
  | cons n rest ih =>
      obtain ⟨hn, hrest⟩ := List.ne_and_not_mem_of_not_mem_cons hdots
      rw [List.foldl_cons, Place.step] at hdir
      unfold Walkable
      by_cases hdot : n = "."
      · rw [if_pos hdot] at hdir ⊢
        exact ih hrest hdir
      · rw [if_neg hdot, if_neg (Ne.symm hn)] at hdir ⊢
        have hnext : fs.entryAt? (place ++ [n]) = some .dir := by
          rw [Place.foldl_step_of_dots_not_mem hrest] at hdir
          exact dir_of_prefix_dir hdir (List.prefix_append _ _)
        exact ⟨(hfs.isName place n (by rw [hnext]; simp)).short, Or.inr ⟨hnext, ih hrest hdir⟩⟩

theorem leads_of_dir (hfs : fs.Plain) (husable : Usable p) (hdots : ".." ∉ p.steps)
    (hdir : fs.entryAt? (fs.locate p) = some .dir) : fs.Leads p := by
  refine ⟨husable, ?_, walkable_of_foldl_dir hfs hdots hdir⟩
  rw [locate, Place.foldl_step_of_dots_not_mem hdots] at hdir
  exact dir_of_prefix_dir hdir (List.prefix_append _ _)

/-! ## Where an entry goes -/

/-- **Where a moved entry goes**, told by the disk before the move: a directory to exactly the
given path, a file also into a directory that stands there. -/
def destination (fs : FileSystem) (src dst : HostPath) : HostPath :=
  if fs.isDir src then dst else fs.landing src dst

theorem landing_cases (fs : FileSystem) (src dst : HostPath) :
    fs.landing src dst = dst ∨ ∃ name, IsPart name ∧ fs.landing src dst = dst.child name := by
  unfold landing
  split
  · exact dst.into_cases src
  · exact Or.inl rfl

theorem dots_not_mem_landing {src dst : HostPath} (hdots : ".." ∉ dst.steps) :
    ".." ∉ (fs.landing src dst).steps := by
  obtain h | ⟨name, hname, h⟩ := fs.landing_cases src dst
  · rwa [h]
  · rw [h]
    exact HostPath.dots_not_mem_steps_child hdots hname

theorem locate_prefix_landing (fs fs1 : FileSystem) (src dst : HostPath) :
    fs.locate dst <+: fs.locate (fs1.landing src dst) := by
  obtain h | ⟨name, hname, h⟩ := fs1.landing_cases src dst
  · exact ⟨[], by rw [h, List.append_nil]⟩
  · rw [h, fs.locate_child dst hname]
    exact List.prefix_append _ _

/-- **A tree stands at a second place**: all of it is there next to what has no counterpart in it,
no directory of it in the place of a file, and around it nothing has changed except that directories
have been made on the way. An empty path names no place when there is no working directory, and then
there is nowhere for the root of the tree to stand. -/
structure Overlaid (src dst : HostPath) (fs fs' : FileSystem) : Prop where
  plain : fs'.Plain
  home : fs'.home = fs.home
  copied : ∀ below e, fs.entryAt? (fs.locate src ++ below) = some e →
    (below = [] → dst.text ≠ "" ∨ fs.entryAt? fs.home = some .dir) →
    fs'.entryAt? (fs.locate dst ++ below) = some e
  kept : ∀ below, fs.entryAt? (fs.locate src ++ below) = none →
    fs'.entryAt? (fs.locate dst ++ below) = fs.entryAt? (fs.locate dst ++ below)
  fits : ∀ below, fs.entryAt? (fs.locate src ++ below) = some .dir →
    (below = [] → dst.text ≠ "" ∨ fs.entryAt? fs.home = some .dir) →
    ∀ b, fs.entryAt? (fs.locate dst ++ below) ≠ some (.file b)
  rest : ∀ q, ¬ fs.locate src <+: q → ¬ fs.locate dst <+: q → fs'.entryAt? q = fs.entryAt? q
    ∨ q <+: fs.locate dst ∧ fs.entryAt? q = none ∧ fs'.entryAt? q = some .dir

/-- **A tree has gone from one place to another**: it stands at the new place, and nothing is left
of it at the old one. -/
structure Relocated (src dst : HostPath) (fs fs' : FileSystem) : Prop
    extends Overlaid src dst fs fs' where
  gone : ∀ below, fs'.entryAt? (fs.locate src ++ below) = none

/-- A tree that stands at a second place apart has gone there once the first one is pruned. -/
theorem Overlaid.relocated {src dst : HostPath} {fs2 : FileSystem} (h : Overlaid src dst fs fs2)
    (hdisjoint : Place.Disjoint (fs.locate src) (fs.locate dst))
    (hprunes : Prunes (fs.locate src) fs2 fs')
    (hgone : ∀ below, fs'.entryAt? (fs.locate src ++ below) = none) :
    Relocated src dst fs fs' := by
  have hleft : ∀ below,
      fs'.entryAt? (fs.locate dst ++ below) = fs2.entryAt? (fs.locate dst ++ below) :=
    fun below => hprunes.entry_of_not_below (hdisjoint.not_prefix_append below)
  refine ⟨⟨hprunes.plain, hprunes.home.trans h.home, fun below e he hroot => ?_,
    fun below hnone => ?_, h.fits, fun q hsrc hdst => ?_⟩, hgone⟩
  · rw [hleft, h.copied below e he hroot]
  · rw [hleft, h.kept below hnone]
  · rw [hprunes.entry_of_not_below hsrc]
    exact h.rest q hsrc hdst

/-- Directories that are made on the way to the new place beforehand make no difference. -/
theorem Relocated.of_paved {src dst : HostPath} {fs1 : FileSystem}
    (hpaved : Paved (fs.locate dst) fs fs1)
    (hdisjoint : Place.Disjoint (fs.locate src) (fs.locate dst))
    (hthere : fs.entryAt? (fs.locate src) ≠ none) (h : Relocated src dst fs1 fs') :
    Relocated src dst fs fs' := by
  have hplace := hpaved.grows.locate
  have hsource := hpaved.entry_of_disjoint hdisjoint
  obtain ⟨⟨hplain, hhome, hcopied, hkept, hfits, hrest⟩, hgone⟩ := h
  rw [hplace] at hgone hcopied hkept hfits hrest
  rw [hplace] at hcopied hkept hfits hrest
  have hnamed : ∀ {below : Place},
      (below = [] → dst.text ≠ "" ∨ fs.entryAt? fs.home = some .dir) →
      below = [] → dst.text ≠ "" ∨ fs1.entryAt? fs1.home = some .dir := fun hroot hbelow =>
    (hroot hbelow).imp id fun hdir => by
      rw [hpaved.home]
      exact Overlay.dirs hpaved.grows _ hdir
  refine ⟨⟨hplain, hhome.trans hpaved.home, fun below e he hroot => ?_,
    fun below hnone => ?_, fun below hdir hroot b hb => ?_, fun q hsrc hdst => ?_⟩, hgone⟩
  · exact hcopied below e (by rw [hsource, he]) (hnamed hroot)
  · have hbelow : below ≠ [] := by
      rintro rfl
      rw [List.append_nil] at hnone
      exact hthere hnone
    rw [hkept below (by rw [hsource, hnone]), hpaved.entry_below hbelow]
  · exact hfits below (by rw [hsource, hdir]) (hnamed hroot) b (hpaved.grows.file_iff.2 hb)
  · rcases hrest q hsrc hdst with heq | ⟨hp, hnone, hdir⟩
    · rw [heq]
      exact hpaved.entry q
    · rcases hpaved.entry q with heq | ⟨-, -, hmade⟩
      · exact Or.inr ⟨hp, heq ▸ hnone, hdir⟩
      · rw [hmade] at hnone
        cases hnone

end FileSystem

namespace FileAction

open FileSystem (Paved Overlay Grows Opened Laid Prunes Overlaid Relocated)

variable {fs fs' : FileSystem} {p src dst : HostPath}

/-! ## Directories around a path -/

theorem isPart_of_parts_eq {ps : List String} {last : String} (hparts : p.parts = ps ++ [last])
    (hps : ps ≠ []) (hdots : ".." ∉ p.steps) : IsPart last := by
  have hsegment := HostPath.isSegment_of_parts_eq hparts hps
  obtain ⟨first, more, rfl⟩ := List.exists_cons_of_ne_nil hps
  refine ⟨hsegment, ?_, ?_⟩
  · rintro rfl
    rcases p.parts_cases with ⟨-, ns, hns, -, hdot⟩ | ⟨-, -, hdot⟩
    · rw [hns, List.cons_append] at hparts
      rw [(List.cons.inj hparts).2] at hdot
      exact hdot (by simp)
    · rw [hparts] at hdot
      exact hdot (by simp)
  · rintro rfl
    exact HostPath.dots_not_mem_parts hdots (by rw [hparts]; simp)

/-- The directories around a path are on the way to it, and it does not become one of them. -/
theorem ensureParent_paves (hfs : fs.Plain) (hdots : ".." ∉ p.steps)
    (h : ensureParent p fs = .ok () fs') :
    Paved (fs.locate p) fs fs' ∧ fs'.entryAt? (fs.locate p) = fs.entryAt? (fs.locate p) := by
  rw [ensureParent] at h
  cases hparent : p.parent? with
  | none =>
      rw [hparent] at h
      cases h
      exact ⟨.refl hfs _, rfl⟩
  | some parent =>
      rw [hparent] at h
      obtain ⟨ps, last, hparts, rfl⟩ := parent?_eq_some hparent
      dsimp only at h
      by_cases hps : ps = []
      · rw [hps, createDirAll_of_empty (p := .ofParts []) rfl] at h
        cases h
        exact ⟨.refl hfs _, rfl⟩
      -- the last part is a name, so that the path goes on from the directory around it
      have hsub : ps <+: p.parts := by
        rw [hparts]
        exact List.prefix_append ps [last]
      have hback := HostPath.parts_ofParts hsub
      have hlast := isPart_of_parts_eq hparts hps hdots
      have hplace : fs.locate p = fs.locate (.ofParts ps) ++ [last] := by
        rw [fs.locate_ofParts hsub, fs.locate_eq_locateParts, hparts, FileSystem.locateParts,
          List.foldl_append, List.foldl_cons, List.foldl_nil, if_neg, Place.step_of_isPart _ hlast]
        · rfl
        · rintro rfl
          exact hlast.no_slash (by simp)
      have hopened := (createDirAll_makesWay hfs (fun hempty => hps (by
          rw [← hback, HostPath.parts_eq_nil_iff.2 hempty])) h).opened (by
        rw [hback]
        exact fun hmem => HostPath.dots_not_mem_parts hdots (hsub.subset hmem))
      rw [hplace]
      refine ⟨(Paved.of_opened hopened).mono (List.prefix_append _ _), hopened.rest _ fun hp => ?_⟩
      have hlength := hp.length_le
      rw [List.length_append, List.length_singleton] at hlength
      omega

theorem isDir_of_ensureParent (hfs : fs.Plain) (hdots : ".." ∉ p.steps)
    (h : ensureParent p fs = .ok () fs') : fs'.isDir p = fs.isDir p := by
  obtain ⟨hpaved, hsame⟩ := ensureParent_paves hfs hdots h
  rw [Bool.eq_iff_iff]
  refine ⟨fun hdir => ?_, fun hdir => Overlay.isDir hpaved.grows hfs hdir⟩
  obtain ⟨hleads, hentry⟩ := (FileSystem.isDir_iff hpaved.plain).1 hdir
  rw [hpaved.grows.locate, hsame] at hentry
  exact (FileSystem.isDir_iff hfs).2
    ⟨FileSystem.leads_of_dir hfs hleads.usable hdots hentry, hentry⟩

/-! ## A directory -/

/-- What is copied stands at the new place, if the path names one: the way there is opened, and the
tree laid. -/
theorem copyTree_lays (hfs : fs.Plain) (hdots : ".." ∉ dst.steps)
    (hplace : dst.text ≠ "" ∨ fs.entryAt? (fs.locate dst) = some .dir)
    (hdisjoint : Place.Disjoint (fs.locate src) (fs.locate dst))
    (h : copyTree src dst fs = .ok () fs') :
    ∃ fs1, Paved (fs.locate dst) fs fs1
      ∧ Laid (fun below => fs.entryAt? (fs.locate src ++ below) ≠ none) (fs.locate src)
        (fs.locate dst) fs1 fs' := by
  obtain ⟨fs1, hopened, hlaid⟩ := copyTreeTo_lays _ fs fs' src dst hfs hdots hplace hdisjoint h
  exact ⟨fs1, .of_opened hopened, hlaid⟩

/-- A copy to a place apart leaves a file where the tree has a directory. -/
theorem file_of_copyTree (hfs : fs.Plain)
    (hdisjoint : Place.Disjoint (fs.locate src) (fs.locate dst))
    (h : copyTree src dst fs = .ok () fs') {below : Place} {b : ByteArray}
    (hdir : fs.entryAt? (fs.locate src ++ below) = some .dir)
    (hb : fs.entryAt? (fs.locate dst ++ below) = some (.file b)) :
    fs'.entryAt? (fs.locate dst ++ below) = some (.file b) := by
  have hapart : fs.Apart (fs.locate src) (fs.locate dst) (fs.locate src) := by
    rintro q ⟨more, c, -, rfl⟩
    exact hdisjoint.not_prefix_append more
  refine (((copyTreeTo_copies pathLimit fs src dst hfs hapart).of_ok h).1.file_iff ?_).2 hb
  rintro ⟨more, c, hc, heq⟩
  rw [← List.append_cancel_left heq, hdir] at hc
  cases hc

theorem fits_of_copyTree (hfs : fs.Plain)
    (hdisjoint : Place.Disjoint (fs.locate src) (fs.locate dst))
    (h : copyTree src dst fs = .ok () fs') {below : Place}
    (hdir : fs.entryAt? (fs.locate src ++ below) = some .dir)
    (hcopied : fs'.entryAt? (fs.locate dst ++ below) = some .dir) (b : ByteArray) :
    fs.entryAt? (fs.locate dst ++ below) ≠ some (.file b) := by
  intro hb
  rw [file_of_copyTree hfs hdisjoint h hdir hb] at hcopied
  cases hcopied

/-- Where there is no place for a tree nothing is copied, and there was nothing but its root. -/
theorem copyTree_overlaid_nowhere (hfs : fs.Plain) (hempty : dst.text = "")
    (hnot : fs.entryAt? (fs.locate dst) ≠ some .dir)
    (hdisjoint : Place.Disjoint (fs.locate src) (fs.locate dst))
    (h : copyTree src dst fs = .ok () fs') : Overlaid src dst fs fs' := by
  have hrun : copyTreeTo (4095 + 1) src dst fs = .ok () fs' := h
  obtain ⟨rfl, hnone⟩ := copyTreeTo_nowhere hfs hempty hnot hdisjoint hrun
  have hhome : fs'.locate dst = fs'.home := by
    rw [FileSystem.locate, FileSystem.origin, HostPath.isRooted, HostPath.steps_eq, hempty]
    rfl
  rw [hhome] at hnot
  have hcopied : ∀ below e, fs'.entryAt? (fs'.locate src ++ below) = some e →
      (below = [] → dst.text ≠ "" ∨ fs'.entryAt? fs'.home = some .dir) →
      fs'.entryAt? (fs'.locate dst ++ below) = some e := by
    intro below e he hnamed
    by_cases hbelow : below = []
    · exact absurd ((hnamed hbelow).resolve_left fun hne => hne hempty) hnot
    · rw [hnone below hbelow] at he
      cases he
  exact ⟨hfs, rfl, hcopied, fun _ _ => rfl, fun below he hnamed =>
    fits_of_copyTree hfs hdisjoint h he (hcopied below _ he hnamed), fun _ _ _ => Or.inl rfl⟩

/-- **A copied tree stands at a second place.** -/
theorem copyTree_overlaid (hfs : fs.Plain) (hdir : fs.isDir src = true) (hdots : ".." ∉ dst.steps)
    (hdisjoint : Place.Disjoint (fs.locate src) (fs.locate dst))
    (h : copyTree src dst fs = .ok () fs') : Overlaid src dst fs fs' := by
  by_cases hplace : dst.text ≠ "" ∨ fs.entryAt? (fs.locate dst) = some .dir
  · have hroot := ((FileSystem.isDir_iff hfs).1 hdir).2
    have hover : Overlay (fs.locate dst <+: ·) fs fs' :=
      (copyTreeTo_below pathLimit hfs src dst).of_ok h
    obtain ⟨fs1, hpaved, hlaid⟩ := copyTree_lays hfs hdots hplace hdisjoint h
    have hcopied : ∀ below e, fs.entryAt? (fs.locate src ++ below) = some e →
        fs'.entryAt? (fs.locate dst ++ below) = some e := by
      intro below e he
      rw [hlaid.made below (by rw [he]; simp), hpaved.entry_of_disjoint hdisjoint, he]
    refine ⟨hover.plain, hover.home, fun below e he _ => hcopied below e he,
      fun below hnone => ?_,
      fun below he _ => fits_of_copyTree hfs hdisjoint h he (hcopied below _ he),
      fun q hsrc hdst => ?_⟩
    · -- the root of the tree has a counterpart, so this is below the new place
      have hbelow : below ≠ [] := by
        rintro rfl
        rw [List.append_nil, hroot] at hnone
        cases hnone
      rw [hlaid.rest _ fun more hmore heq => hmore (List.append_cancel_left heq ▸ hnone),
        hpaved.entry_below hbelow]
    · rw [hlaid.rest q fun more _ heq => hdst (heq ▸ List.prefix_append _ more)]
      exact hpaved.entry q
  · obtain ⟨hempty, hnot⟩ := not_or.1 hplace
    exact copyTree_overlaid_nowhere hfs (Decidable.not_not.1 hempty) hnot hdisjoint h

theorem deleteTree_leaves (hfs : fs.Plain) (hdir : fs.isDir src = true)
    (h : deleteTree src fs = .ok () fs') :
    Prunes (fs.locate src) fs fs' ∧ ∀ below, fs'.entryAt? (fs.locate src ++ below) = none := by
  obtain ⟨hprunes, hgone⟩ := (deleteTreeTo_ends pathLimit src hfs).of_ok h
  have hexists : fs.exists? src = true := by
    obtain ⟨hleads, hentry⟩ := (FileSystem.isDir_iff hfs).1 hdir
    exact (FileSystem.exists?_iff hfs).2 ⟨hleads, by rw [hentry]; simp, fun _ => hentry⟩
  exact ⟨hprunes, FileSystem.entryAt?_below_none (hgone hexists)⟩

/-- **A tree that is copied to a place apart and then deleted is relocated.** -/
theorem copyAndDelete_relocates (hfs : fs.Plain) (hdir : fs.isDir src = true)
    (hdots : ".." ∉ dst.steps) (hdisjoint : Place.Disjoint (fs.locate src) (fs.locate dst))
    {fs2 : FileSystem} (hcopy : copyTree src dst fs = .ok () fs2)
    (hdelete : deleteTree src fs2 = .ok () fs') : Relocated src dst fs fs' := by
  have hover : Overlay (fs.locate dst <+: ·) fs fs2 :=
    (copyTreeTo_below pathLimit hfs src dst).of_ok hcopy
  obtain ⟨hprunes, hgone⟩ := deleteTree_leaves hover.plain (hover.isDir hfs hdir) hdelete
  rw [hover.locate] at hprunes hgone
  exact (copyTree_overlaid hfs hdir hdots hdisjoint hcopy).relocated hdisjoint hprunes hgone

/-! ## A file -/

/-- Only what stands at the very path is cleared, and no directory. -/
theorem clearTarget_clears (hfs : fs.Plain) (h : clearTarget p fs = .ok () fs') :
    fs'.Plain ∧ fs'.home = fs.home
      ∧ ∀ q, q ≠ fs.locate p → fs'.entryAt? q = fs.entryAt? q := by
  have hrun := (clearTarget_ends hfs p).of_ok h
  by_cases hfile : fs.isFile p = true
  · rw [if_pos hfile] at hrun
    obtain ⟨hleads, -, b, hb⟩ := (FileSystem.isFile_iff hfs).1 hfile
    have hslot := hleads.slot hfs (by rw [hb]; simp)
    have hover : Overlay (Eq (fs.locate p)) fs fs' := hrun ▸ .eraseFile hfs hslot hb rfl
    refine ⟨hover.plain, hover.home, fun q hq => ?_⟩
    rw [hrun, FileSystem.entryAt?_erase hslot]
    split
    · next hbelow =>
        -- nothing stands below a file
        obtain ⟨below, rfl⟩ := hbelow
        refine Eq.symm (Decidable.byContradiction fun hne => hq ?_)
        rw [FileSystem.eq_nil_of_below_file hb hne, List.append_nil]
    · rfl
  · rw [if_neg hfile] at hrun
    rw [hrun]
    exact ⟨hfs, rfl, fun _ _ => rfl⟩

theorem rename_moves (hfs : fs.Plain) (hne : fs.locate dst ≠ fs.locate src)
    (h : rename src dst fs = .ok () fs') :
    fs'.Plain ∧ fs'.home = fs.home ∧ ∃ b, fs.entryAt? (fs.locate src) = some (.file b)
      ∧ ∀ q, fs'.entryAt? q = if q = fs.locate dst then some (.file b)
        else if fs.locate src <+: q then none else fs.entryAt? q := by
  obtain ⟨hold, hnew, hnot, b, hb, ⟨heq, -⟩ | ⟨-, rfl⟩⟩ := (rename_ends hfs src dst).of_ok h
  · exact absurd heq hne
  · have hslot := hold.slot hfs (by rw [hb]; simp)
    have herase := FileSystem.entryAt?_erase hslot
    have hover : Overlay (Eq (fs.locate src)) fs (fs.erase (fs.locate src)) :=
      .eraseFile hfs hslot hb rfl
    have hnot' : (fs.erase (fs.locate src)).entryAt? (fs.locate dst) ≠ some .dir := by
      rw [herase]
      split
      · simp
      · exact hnot
    have hslot' := (hnew.slot hfs hnot).mono hover.dirs
    have hset : Overlay (Eq (fs.locate dst)) _ _ :=
      .setFile hover.plain hslot' hnot' rfl b
    refine ⟨hset.plain, hset.home.trans hover.home, b, hb, fun q => ?_⟩
    rw [FileSystem.entryAt?_setFile hslot' hnot', herase]

/-- **A file that is renamed to a cleared place apart is relocated.** -/
theorem clearAndRename_relocates (hfs : fs.Plain) (hdots : ".." ∉ dst.steps)
    (hdisjoint : Place.Disjoint (fs.locate src) (fs.locate dst))
    (h : (do clearTarget dst; ensureParent dst; rename src dst) fs = .ok () fs') :
    Relocated src dst fs fs' := by
  obtain ⟨⟨⟩, fs1, hclear, h⟩ := bind_eq_ok_iff.1 h
  obtain ⟨⟨⟩, fs2, hparent, hrename⟩ := bind_eq_ok_iff.1 h
  obtain ⟨hplain1, hhome1, hclear⟩ := clearTarget_clears hfs hclear
  obtain ⟨hpaved, -⟩ := ensureParent_paves hplain1 hdots hparent
  have hplace : ∀ p, fs2.locate p = fs.locate p := fun p =>
    (hpaved.grows.locate p).trans (FileSystem.locate_congr hhome1 p)
  have hne : fs.locate src ≠ fs.locate dst := fun heq => hdisjoint.1 (heq ▸ List.prefix_rfl)
  obtain ⟨hplain', hhome', b, hb, hentry⟩ :=
    rename_moves hpaved.plain (by rw [hplace, hplace]; exact hne.symm) hrename
  rw [FileSystem.locate_congr hhome1] at hpaved
  rw [hplace] at hb hentry
  rw [hplace] at hentry
  have hsource : ∀ below,
      fs2.entryAt? (fs.locate src ++ below) = fs.entryAt? (fs.locate src ++ below) :=
    fun below => by
      have hother : fs.locate src ++ below ≠ fs.locate dst := fun heq =>
        hdisjoint.1 (heq ▸ List.prefix_append _ below)
      rw [hpaved.entry_of_disjoint hdisjoint, hclear _ hother]
  have hfile : fs.entryAt? (fs.locate src) = some (.file b) := by
    have hsame := hsource []
    rw [List.append_nil] at hsame
    rw [← hsame, hb]
  -- what is moved is a file, so nothing below either place has to be looked at
  refine ⟨⟨hplain', hhome'.trans (hpaved.home.trans hhome1), fun below e he _ => ?_,
    fun below hnone => ?_, fun below hdir _ => ?_, fun q hsrc hdst => ?_⟩, fun below => ?_⟩
  · obtain rfl := FileSystem.eq_nil_of_below_file hfile (by rw [he]; simp)
    rw [List.append_nil] at he ⊢
    rw [hentry, if_pos rfl, ← hfile, he]
  · have hbelow : below ≠ [] := by
      rintro rfl
      rw [List.append_nil, hfile] at hnone
      cases hnone
    have hother : fs.locate dst ++ below ≠ fs.locate dst := fun heq =>
      hbelow (List.append_right_eq_self.1 heq)
    rw [hentry, if_neg hother, if_neg (hdisjoint.not_prefix_append below),
      hpaved.entry_below hbelow, hclear _ hother]
  · obtain rfl := FileSystem.eq_nil_of_below_file hfile (by rw [hdir]; simp)
    rw [List.append_nil, hfile] at hdir
    cases hdir
  · have hother : q ≠ fs.locate dst := fun heq => hdst (heq ▸ List.prefix_rfl)
    rw [hentry, if_neg hother, if_neg hsrc, ← hclear q hother]
    exact hpaved.entry q
  · have hother : fs.locate src ++ below ≠ fs.locate dst := fun heq =>
      hdisjoint.1 (heq ▸ List.prefix_append _ below)
    rw [hentry, if_neg hother, if_pos (List.prefix_append _ below)]

/-! ## Both -/

/-- **A move to a place apart relocates**, whichever way it takes. -/
theorem moveEntry_relocated (hfs : fs.Plain) (hdots : ".." ∉ dst.steps)
    (hdisjoint : Place.Disjoint (fs.locate src) (fs.locate (fs.destination src dst)))
    (h : moveEntry src dst fs = .ok () fs') : Relocated src (fs.destination src dst) fs fs' := by
  obtain ⟨⟨place, node⟩, fs0, hask, hrun⟩ := bind_eq_ok_iff.1 h
  obtain ⟨hstat, hsame⟩ := ask_eq_ok_iff.1 hask
  rw [hsame] at hrun
  dsimp only at hrun
  obtain ⟨⟨⟩, fs1, hparent, hmove⟩ := bind_eq_ok_iff.1 hrun
  obtain ⟨hpaved, -⟩ := ensureParent_paves hfs hdots hparent
  obtain ⟨hleads, rfl, hnode, -⟩ := (FileSystem.stat_eq_ok_iff hfs).1 hstat
  have hthere : fs.entryAt? (fs.locate src) ≠ none := by
    rw [FileSystem.entryAt?_eq_map, hnode]
    simp
  have hsrcDir : fs.isDir src = node.isDir := by
    rw [FileSystem.isDir, hstat]
    cases node <;> rfl
  have hrename : node.isDir = false →
      (do
        let target ← look fun fs => fs.landing src dst
        clearTarget target
        ensureParent target
        rename src target) fs1 = .ok () fs' →
      Relocated src (fs.destination src dst) fs fs' := by
    intro hnot hrun
    -- the target is found once the parents are there, which does not change where it is
    have hlanding : fs1.landing src dst = fs.landing src dst := by
      rw [FileSystem.landing, FileSystem.landing, isDir_of_ensureParent hfs hdots hparent]
    rw [FileSystem.destination, hsrcDir, hnot, if_neg (by simp)] at hdisjoint ⊢
    have hway : Paved (fs.locate (fs.landing src dst)) fs fs1 :=
      hpaved.mono (fs.locate_prefix_landing fs src dst)
    refine .of_paved hway hdisjoint hthere ?_
    rw [← hpaved.grows.locate, ← hpaved.grows.locate] at hdisjoint
    have hrun' : (do
        clearTarget (fs1.landing src dst)
        ensureParent (fs1.landing src dst)
        rename src (fs1.landing src dst)) fs1 = .ok () fs' := hrun
    rw [hlanding] at hrun'
    exact clearAndRename_relocates hpaved.plain (FileSystem.dots_not_mem_landing hdots) hdisjoint
      hrun'
  cases node with
  | dir es =>
      have hdir : fs.isDir src = true := hsrcDir
      obtain ⟨⟨⟩, fs2, hcopy, hdelete⟩ := bind_eq_ok_iff.1 hmove
      rw [FileSystem.destination, if_pos hdir] at hdisjoint ⊢
      refine .of_paved hpaved hdisjoint hthere ?_
      rw [← hpaved.grows.locate, ← hpaved.grows.locate] at hdisjoint
      exact copyAndDelete_relocates hpaved.plain (Overlay.isDir hpaved.grows hfs hdir) hdots
        hdisjoint hcopy hdelete
  | file b => exact hrename rfl hmove
  | link t => exact hrename rfl hmove

/-- **A successful move to a separate place is a relocation.** The new place is the path itself for
a directory, and for a file also the one under its own name inside, when the path ends in a slash or
leads to a directory. If the two places are apart and the move returns, then nothing exists at the
old place, whatever was there is at the new one, entries at the new place without a counterpart are
as before, and all else is unchanged but for directories that have been made above it. Only for the
root of what is moved there is no place to go to when the path is empty and there is no working
directory. -/
theorem moveEntry_relocates (hfs : fs.Plain) (hdots : ".." ∉ dst.steps)
    (hdisjoint : Place.Disjoint (fs.locate src) (fs.locate (fs.destination src dst)))
    (h : moveEntry src dst fs = .ok () fs') :
    fs'.exists? src = false
      ∧ (∀ below, fs'.entryAt? (fs.locate src ++ below) = none)
      ∧ (∀ below e, fs.entryAt? (fs.locate src ++ below) = some e →
          (below = [] → (fs.destination src dst).text ≠ "" ∨ fs.entryAt? fs.home = some .dir) →
          fs'.entryAt? (fs.locate (fs.destination src dst) ++ below) = some e)
      ∧ (∀ below, fs.entryAt? (fs.locate src ++ below) = none →
          fs'.entryAt? (fs.locate (fs.destination src dst) ++ below)
            = fs.entryAt? (fs.locate (fs.destination src dst) ++ below))
      ∧ (∀ q, ¬ fs.locate src <+: q → ¬ fs.locate (fs.destination src dst) <+: q →
          fs'.entryAt? q = fs.entryAt? q
            ∨ q <+: fs.locate (fs.destination src dst) ∧ fs.entryAt? q = none
              ∧ fs'.entryAt? q = some .dir)
      ∧ fs'.home = fs.home := by
  obtain ⟨⟨hplain, hhome, hmoved, hkept, -, hrest⟩, hgone⟩ :=
    moveEntry_relocated hfs hdots hdisjoint h
  refine ⟨?_, hgone, hmoved, hkept, hrest, hhome⟩
  rw [Bool.eq_false_iff]
  intro hexists
  obtain ⟨-, hthere, -⟩ := (FileSystem.exists?_iff hplain).1 hexists
  rw [FileSystem.locate_congr hhome] at hthere
  have hnone := hgone []
  rw [List.append_nil] at hnone
  exact hthere hnone

/-- A directory with a file in it is moved to a place whose parent is missing. -/
theorem folder_moved :
    folder.Plain ∧ ".." ∉ HostPath.steps ⟨"/new/place"⟩
      ∧ Place.Disjoint (folder.locate ⟨"/d"⟩)
          (folder.locate (folder.destination ⟨"/d"⟩ ⟨"/new/place"⟩))
      ∧ ∃ fs', moveEntry ⟨"/d"⟩ ⟨"/new/place"⟩ folder = .ok () fs'
        ∧ fs'.exists? ⟨"/d"⟩ = false
        ∧ fs'.entryAt? ["new", "place", "a"] = some (.file ⟨#[49]⟩) := by
  have hdots : ".." ∉ HostPath.steps ⟨"/new/place"⟩ := by decide +kernel
  have hsrc : folder.locate ⟨"/d"⟩ = ["d"] := by decide +kernel
  have hdst : folder.locate (folder.destination ⟨"/d"⟩ ⟨"/new/place"⟩) = ["new", "place"] := by
    decide +kernel
  have hdisjoint : Place.Disjoint (folder.locate ⟨"/d"⟩)
      (folder.locate (folder.destination ⟨"/d"⟩ ⟨"/new/place"⟩)) := by
    rw [hsrc, hdst]
    exact ⟨by decide, by decide⟩
  have hreturns : returns (moveEntry ⟨"/d"⟩ ⟨"/new/place"⟩) folder = true := by decide +kernel
  obtain ⟨_, fs', hrun⟩ := returns_iff.1 hreturns
  obtain ⟨hgone, -, hmoved, -⟩ := moveEntry_relocates folder_plain hdots hdisjoint hrun
  refine ⟨folder_plain, hdots, hdisjoint, fs', hrun, hgone, ?_⟩
  have hfile := hmoved ["a"] (.file ⟨#[49]⟩) (by rw [hsrc]; rfl) fun h => by cases h
  rw [hdst] at hfile
  exact hfile

end FileAction

end PackageScript
