import PackageScript.Proofs.Files.Growth
import PackageScript.Proofs.Files.TreeCopies

set_option autoImplicit false

/-! # Copies that return elsewhere, too

Whether a copy returns depends on what is copied, on what stands where it is copied to, and on the
directories that lead to both. So a copy that returns in one tree returns in every other that has
the same at and below these two places and at least the same directories (`FileSystem.Alike`). The
proof follows the run: each step of it can be repeated in a tree of that kind and leaves such a tree
behind (`FileAction.Repeatable`). Its second half says that no step changes anything outside the
new place. This holds once the parents of the new place are made, and a copy that returns can be
started behind that (`copyEntry_behind_parents`).
-/

namespace PackageScript

namespace FileSystem

variable {fs fs' fs'' other other' : FileSystem} {Z W W' : Place → Prop} {place : Place}
variable {p : HostPath} {e : Entry}

/-! ## Changes at some places -/

/-- **Nothing has changed but at some places**, and all directories are still there. -/
structure Within (W : Place → Prop) (fs fs' : FileSystem) : Prop where
  overlay : Overlay (fun _ => True) fs fs'
  rest : ∀ q, ¬ W q → fs'.entryAt? q = fs.entryAt? q

theorem Within.refl (hfs : fs.Plain) : Within W fs fs := ⟨.refl hfs, fun _ _ => rfl⟩

theorem Within.trans (h : Within W fs fs') (h' : Within W fs' fs'') : Within W fs fs'' :=
  ⟨h.overlay.trans h'.overlay, fun q hq => (h'.rest q hq).trans (h.rest q hq)⟩

theorem Within.mono (h : Within W fs fs') (hW : ∀ q, W q → W' q) : Within W' fs fs' :=
  ⟨h.overlay, fun q hq => h.rest q fun hq' => hq (hW q hq')⟩

/-- **Two trees are alike on some places**: the same stands there in both, and the second has at
least the directories of the first. -/
structure Alike (Z : Place → Prop) (fs other : FileSystem) : Prop where
  overlay : Overlay (fun _ => True) fs other
  same : ∀ q, Z q → other.entryAt? q = fs.entryAt? q

/-- What a path names is the same in a tree that is alike there. -/
theorem Alike.stat (h : Alike Z fs other) (hfs : fs.Plain)
    (hZ : ∀ below, Z (fs.locate p ++ below)) {found : Place × Node}
    (hstat : fs.stat p = .ok found) :
    other.stat p = .ok found := by
  obtain ⟨hleads, hplace, hnode, hslash⟩ := (stat_eq_ok_iff hfs).1 hstat
  refine (stat_eq_ok_iff h.overlay.plain).2 ⟨h.overlay.leads hleads, ?_, ?_, hslash⟩
  · rw [hplace, h.overlay.locate]
  · rw [← hnode, hplace]
    exact node?_congr fun below => h.same _ (hZ below)

theorem Alike.isFile (h : Alike Z fs other) (hfs : fs.Plain) (hZ : Z (fs.locate p))
    (hfile : fs.isFile p = true) : other.isFile p = true := by
  obtain ⟨hleads, hslash, b, hb⟩ := (isFile_iff hfs).1 hfile
  refine (isFile_iff h.overlay.plain).2 ⟨h.overlay.leads hleads, hslash, b, ?_⟩
  rw [h.overlay.locate, h.same _ hZ, hb]

/-! ## One entry put in its place -/

/-- A file or an empty directory is put at a place. -/
structure Put (place : Place) (e : Entry) (fs fs' : FileSystem) : Prop where
  plain : fs'.Plain
  home : fs'.home = fs.home
  entry : ∀ q, fs'.entryAt? q = if q = place then some e else fs.entryAt? q

namespace Put

theorem setDir (hfs : fs.Plain) (hslot : fs.Slot place) (hnone : fs.entryAt? place = none) :
    Put place .dir fs (fs.setDir place) where
  plain := (Overlay.setDir (W := fun _ => True) hfs hslot hnone).plain
  home := rfl
  entry := entryAt?_setDir hslot hnone

theorem setFile (hfs : fs.Plain) (hslot : fs.Slot place) (hnot : fs.entryAt? place ≠ some .dir)
    (b : ByteArray) : Put place (.file b) fs (fs.setFile place b) where
  plain := (Overlay.setFile (W := fun _ => True) hfs hslot hnot trivial b).plain
  home := rfl
  entry := entryAt?_setFile hslot hnot b

theorem overlay (h : Put place e fs fs') (hnot : fs.entryAt? place ≠ some .dir) :
    Overlay (fun _ => True) fs fs' where
  plain := h.plain
  home := h.home
  dirs q hq := by
    have hne : q ≠ place := by
      rintro rfl
      exact hnot hq
    rw [h.entry, if_neg hne]
    exact hq
  rest q hq := absurd trivial hq

theorem within (h : Put place e fs fs') (hnot : fs.entryAt? place ≠ some .dir) :
    Within (place <+: ·) fs fs' where
  overlay := h.overlay hnot
  rest q hq := by
    have hne : q ≠ place := by
      rintro rfl
      exact hq List.prefix_rfl
    rw [h.entry, if_neg hne]

/-- Trees that are alike are so after the same has been put in both. -/
theorem alike (h : Put place e fs fs') (h' : Put place e other other') (hlike : Alike Z fs other) :
    Alike Z fs' other' where
  overlay :=
    { plain := h'.plain
      home := by rw [h'.home, hlike.overlay.home, h.home]
      dirs := fun q hq => by
        rw [h.entry] at hq
        rw [h'.entry]
        split at hq
        · rw [if_pos ‹_›]
          exact hq
        · rw [if_neg ‹_›]
          exact hlike.overlay.dirs q hq
      rest := fun q hq => absurd trivial hq }
  same q hq := by rw [h.entry, h'.entry, hlike.same q hq]

end Put

end FileSystem

namespace FileAction

open FileSystem (Overlay Within Alike Put)

variable {fs fs' fs1 : FileSystem} {src dst p : HostPath} {Z W W' : Place → Prop}
variable {name : String}

/-! ## Steps that can be repeated -/

/-- **A step that can be repeated**: it changes nothing but at some places, and in every tree that
is alike where the step looks it returns the same and leaves a tree that is alike. -/
structure Repeatable {α : Type} (Z W : Place → Prop) (act : FileAction α)
    (fs : FileSystem) (a : α) (fs' : FileSystem) : Prop where
  within : Within W fs fs'
  again : ∀ other, Alike Z fs other → ∃ other', act other = .ok a other' ∧ Alike Z fs' other'

theorem Repeatable.bind {α β : Type} {act : FileAction α} {next : α → FileAction β} {a : α} {b : β}
    (h : Repeatable Z W act fs a fs1) (h' : Repeatable Z W (next a) fs1 b fs') :
    Repeatable Z W (act >>= next) fs b fs' := by
  refine ⟨h.within.trans h'.within, fun other hlike => ?_⟩
  obtain ⟨other1, hact, hlike1⟩ := h.again other hlike
  obtain ⟨other2, hnext, hlike2⟩ := h'.again other1 hlike1
  exact ⟨other2, bind_eq_ok_iff.2 ⟨a, other1, hact, hnext⟩, hlike2⟩

theorem Repeatable.mono {α : Type} {act : FileAction α} {a : α}
    (h : Repeatable Z W act fs a fs') (hW : ∀ q, W q → W' q) : Repeatable Z W' act fs a fs' :=
  ⟨h.within.mono hW, h.again⟩

theorem repeatable_ask {α : Type} {question : FileSystem → Except FileError α} {a : α}
    (hfs : fs.Plain) (hsame : ∀ other, Alike Z fs other → question other = .ok a) :
    Repeatable Z W (ask question) fs a fs :=
  ⟨.refl hfs, fun other hlike => ⟨other, ask_eq_ok_iff.2 ⟨hsame other hlike, rfl⟩, hlike⟩⟩

/-- A file is copied alike, if the parents of its new place are there. -/
theorem copyFile_repeatable (hfs : fs.Plain) (hready : ensureParent dst fs = .ok () fs)
    (hS : ∀ below, Z (fs.locate src ++ below)) (hD : Z (fs.locate dst)) {n : Nat}
    (h : copyFile src dst fs = .ok n fs') :
    Repeatable Z (fs.locate dst <+: ·) (copyFile src dst) fs n fs' := by
  by_cases hsame : src.same dst = true
  · -- a copy onto itself only asks for the size
    rw [copyFile, if_pos hsame] at h ⊢
    obtain ⟨hsize, hkept⟩ := ask_eq_ok_iff.1 h
    rw [hkept]
    refine repeatable_ask hfs fun other hlike => ?_
    rw [sizeOf] at hsize ⊢
    cases hstat : fs.stat src with
    | error e =>
        rw [hstat] at hsize
        cases hsize
    | ok found =>
        rw [hstat] at hsize
        rw [hlike.stat hfs hS hstat]
        exact hsize
  · rw [Bool.not_eq_true] at hsame
    obtain ⟨b, fs1, hfile, hb, hn, hparent, hleads, hslash, hnot, rfl⟩ :=
      (copyFile_eq_ok_iff hfs hsame).1 h
    rw [hready] at hparent
    cases hparent
    have hput := Put.setFile hfs (hleads.slot hfs hnot) hnot b
    refine ⟨hput.within hnot, fun other hlike => ?_⟩
    have hplain := hlike.overlay.plain
    have hnot' : other.entryAt? (other.locate dst) ≠ some .dir := by
      rw [hlike.overlay.locate, hlike.same _ hD]
      exact hnot
    have hS0 := hS []
    rw [List.append_nil] at hS0
    have hb' : other.entryAt? (other.locate src) = some (.file b) := by
      rw [hlike.overlay.locate, hlike.same _ hS0, hb]
    have hleads' := hlike.overlay.leads hleads
    have hput' := Put.setFile hplain (hleads'.slot hplain hnot') hnot' b
    refine ⟨_, (copyFile_eq_ok_iff hplain hsame).2 ⟨b, other, hlike.isFile hfs hS0 hfile, hb', hn,
      ensureParent_again hfs hready hlike.overlay, hleads', hslash, hnot', rfl⟩, ?_⟩
    rw [hlike.overlay.locate] at hput' ⊢
    exact hput.alike hput' hlike

/-! ## The directory at the new place -/

theorem makeOrFind_eq_ok_iff (hfs : fs.Plain) :
    makeOrFind p fs = .ok () fs'
      ↔ fs.isDir p = true ∧ fs' = fs
        ∨ fs.Leads p ∧ fs.entryAt? (fs.locate p) = none ∧ fs' = fs.setDir (fs.locate p) := by
  rw [← makeDir_eq_ok_iff hfs, makeOrFind]
  cases hmake : makeDir p fs with
  | ok a fs1 =>
      have hnot : ¬ fs.isDir p = true := by
        intro hdir
        rw [makeDir_of_isDir hfs hdir] at hmake
        cases hmake
      simp [hnot, eq_comm]
  | error e fs1 =>
      obtain rfl : fs1 = fs := (makeDir_grows hfs p).of_error hmake
      by_cases hdir : fs1.isDir p = true
      · simp [hdir, eq_comm]
      · simp [hdir]

theorem createDirAll_of_makeOrFind (hfs : fs.Plain) (h : makeOrFind p fs = .ok () fs') :
    createDirAll p fs = .ok () fs' := by
  rcases (makeOrFind_eq_ok_iff hfs).1 h with ⟨hdir, rfl⟩ | ⟨hleads, hnone, rfl⟩
  · exact createDirAll_of_isDir hfs hdir
  · exact createDirAll_of_vacant hfs hleads hnone

theorem ensureParent_of_leads (hfs : fs.Plain) (h : fs.Leads p) :
    ensureParent p fs = .ok () fs := by
  have hresolve : fs.resolve .always p = .ok ⟨fs.locate p, p.endsWithSlash⟩ :=
    FileSystem.resolve_eq_ok hfs h
  exact ensureParent_of_resolve hresolve

theorem leads_of_makeOrFind (hfs : fs.Plain) (h : makeOrFind p fs = .ok () fs') : fs.Leads p := by
  rcases (makeOrFind_eq_ok_iff hfs).1 h with ⟨hdir, -⟩ | ⟨hleads, -⟩
  · exact ((FileSystem.isDir_iff hfs).1 hdir).1
  · exact hleads

/-- **A directory is made behind its parents**: first they are made, then the directory alone. -/
theorem createDirAll_behind_parents (hfs : fs.Plain) (hname : IsPart name)
    (h : createDirAll (p.child name) fs = .ok () fs') :
    ∃ fs1, ensureParent (p.child name) fs = .ok () fs1
      ∧ makeOrFind (p.child name) fs1 = .ok () fs' := by
  -- where one step is enough, the parents are there already
  have honce : ∀ fs', makeOrFind (p.child name) fs = .ok () fs' →
      ∃ fs1, ensureParent (p.child name) fs = .ok () fs1
        ∧ makeOrFind (p.child name) fs1 = .ok () fs' := fun fs' hmake =>
    ⟨fs, ensureParent_of_leads hfs (leads_of_makeOrFind hfs hmake), hmake⟩
  have hparts : (p.child name).parts.reverse = name :: p.parts.reverse := by
    rw [p.parts_child hname, List.reverse_append, List.reverse_singleton, List.singleton_append]
  rw [createDirAll, hparts] at h
  cases habove : p.parts.reverse with
  | nil =>
      rw [habove] at h
      exact honce fs' h
  | cons part above =>
      have hback : (part :: above).reverse = p.parts := by rw [← habove, List.reverse_reverse]
      have hparent : ensureParent (p.child name) = makeDirs (.ofParts p.parts) above := by
        rw [ensureParent_child p hname, createDirAll, HostPath.parts_ofParts List.prefix_rfl,
          habove]
      have hends : Ends (makeDirs (p.child name) (part :: above)) fs
          (fun _ fs' => ∃ fs1, ensureParent (p.child name) fs = .ok () fs1
            ∧ makeOrFind (p.child name) fs1 = .ok () fs') (fun _ _ => True) := by
        refine makeDirs_cons_ends ?_ ?_
        · rw [Ends]
          split
          next hmake => exact honce _ hmake
          next => trivial
        · rw [hback, ← hparent, Ends]
          split
          next hmade =>
            rw [Ends]
            split
            next hmake => exact ⟨_, hmade, hmake⟩
            next => trivial
          next => trivial
      rw [habove] at h
      exact hends.of_ok h

theorem createDirAll_repeatable (hfs : fs.Plain) (hname : IsPart name)
    (hready : ensureParent (p.child name) fs = .ok () fs) (hD : Z (fs.locate (p.child name)))
    (h : createDirAll (p.child name) fs = .ok () fs') :
    Repeatable Z (fs.locate (p.child name) <+: ·) (createDirAll (p.child name)) fs () fs' := by
  obtain ⟨fs1, hparent, hmake⟩ := createDirAll_behind_parents hfs hname h
  rw [hready] at hparent
  cases hparent
  rcases (makeOrFind_eq_ok_iff hfs).1 hmake with ⟨hdir, rfl⟩ | ⟨hleads, hnone, rfl⟩
  · exact ⟨.refl hfs, fun other hlike => ⟨other,
      createDirAll_of_isDir hlike.overlay.plain (hlike.overlay.isDir hfs hdir), hlike⟩⟩
  · have hnot : fs.entryAt? (fs.locate (p.child name)) ≠ some .dir := by
      rw [hnone]
      simp
    have hput := Put.setDir hfs (hleads.slot hfs hnot) hnone
    refine ⟨hput.within hnot, fun other hlike => ?_⟩
    have hplain := hlike.overlay.plain
    have hleads' := hlike.overlay.leads hleads
    have hnone' : other.entryAt? (other.locate (p.child name)) = none := by
      rw [hlike.overlay.locate, hlike.same _ hD, hnone]
    have hput' := Put.setDir hplain (hleads'.slot hplain (by rw [hnone']; simp)) hnone'
    refine ⟨_, createDirAll_of_vacant hplain hleads' hnone', ?_⟩
    rw [hlike.overlay.locate] at hput' ⊢
    exact hput.alike hput' hlike

/-! ## Trees -/

/-- **What the copying of directories is relied on for**: it can be repeated once the parents of
the new place are there. -/
def RepeatsCopies (copyDir : HostPath → HostPath → FileAction Unit) (Z : Place → Prop) : Prop :=
  ∀ (fs fs' : FileSystem) (src dst : HostPath) (name : String), fs.Plain → IsPart name →
    ensureParent (dst.child name) fs = .ok () fs → (∀ below, Z (fs.locate src ++ below)) →
    (∀ below, Z (fs.locate (dst.child name) ++ below)) →
    copyDir src (dst.child name) fs = .ok () fs' →
    Repeatable Z (fs.locate (dst.child name) <+: ·) (copyDir src (dst.child name)) fs () fs'

/-- The entries of a directory are copied alike into a directory that is there. -/
theorem copyEntries_repeatable {copyDir : HostPath → HostPath → FileAction Unit}
    (hcopyDir : RepeatsCopies copyDir Z) {entries : List (String × Entry)} (hfs : fs.Plain)
    (hdir : fs.isDir dst = true) (hS : ∀ below, Z (fs.locate src ++ below))
    (hD : ∀ below, Z (fs.locate dst ++ below)) (hnames : ∀ e ∈ entries, IsName e.1)
    (h : copyEntries copyDir src dst entries fs = .ok () fs') :
    Repeatable Z (fs.locate dst <+: ·) (copyEntries copyDir src dst entries) fs () fs' := by
  induction entries generalizing fs with
  | nil =>
      cases h
      exact ⟨.refl hfs, fun other hlike => ⟨other, rfl, hlike⟩⟩
  | cons entry rest ih =>
      obtain ⟨name, e⟩ := entry
      have hname : IsPart name := (hnames (name, e) List.mem_cons_self).toIsPart
      obtain ⟨fs1, hentry, hrest⟩ := copyEntries_cons_eq_ok_iff.1 h
      have hready := ensureParent_child_of_isDir hfs hname hdir
      have hsrc := fs.locate_child src hname
      have hdst := fs.locate_child dst hname
      have hinside : ∀ q, fs.locate (dst.child name) <+: q → fs.locate dst <+: q := by
        intro q hq
        rw [hdst] at hq
        exact (List.prefix_append _ _).trans hq
      have hS' : ∀ below, Z (fs.locate (src.child name) ++ below) := fun below => by
        rw [hsrc, List.append_assoc]
        exact hS _
      have hD' : ∀ below, Z (fs.locate (dst.child name) ++ below) := fun below => by
        rw [hdst, List.append_assoc]
        exact hD _
      -- the others are copied in the tree that the first entry leaves
      have hothers : Within (fs.locate dst <+: ·) fs fs1 →
          Repeatable Z (fs.locate dst <+: ·) (copyEntries copyDir src dst rest) fs1 () fs' := by
        intro hwithin
        have hgo := ih hwithin.overlay.plain (hwithin.overlay.isDir hfs hdir)
          (by rw [hwithin.overlay.locate]; exact hS) (by rw [hwithin.overlay.locate]; exact hD)
          (fun e' he' => hnames e' (List.mem_cons_of_mem _ he')) hrest
        rw [hwithin.overlay.locate] at hgo
        exact hgo
      have hfile : (∃ n, copyFile (src.child name) (dst.child name) fs = .ok n fs1) →
          Repeatable Z (fs.locate dst <+: ·) (do
            let _ ← copyFile (src.child name) (dst.child name)
            copyEntries copyDir src dst rest) fs () fs' := by
        rintro ⟨n, hcopy⟩
        have hD0 := hD' []
        rw [List.append_nil] at hD0
        have hstep := (copyFile_repeatable hfs hready hS' hD0 hcopy).mono hinside
        exact hstep.bind (hothers hstep.within)
      cases e with
      | dir =>
          have hstep := (hcopyDir _ _ _ _ _ hfs hname hready hS' hD' hentry).mono hinside
          exact hstep.bind (hothers hstep.within)
      | file b => exact hfile hentry
      | link t => exact hfile hentry

/-- **A tree is copied alike**, if the parents of its new place are there. -/
theorem copyTreeTo_repeatable (depth : Nat) (Z : Place → Prop) :
    RepeatsCopies (copyTreeTo depth) Z := by
  induction depth with
  | zero =>
      intro fs fs' src dst name _ _ _ _ _ h
      cases h
  | succ depth ih =>
      intro fs fs' src dst name hfs hname hready hS hD h
      by_cases hsame : src.same (dst.child name) = true
      · rw [copyTreeTo] at h ⊢
        dsimp only at h ⊢
        rw [if_pos hsame] at h ⊢
        cases h
        exact ⟨.refl hfs, fun other hlike => ⟨other, rfl, hlike⟩⟩
      rw [Bool.not_eq_true] at hsame
      obtain ⟨hinto, fs1, entries, hmake, hlist, hcopy⟩ :=
        (copyTreeTo_succ_eq_ok_iff hsame).1 h
      have hD0 := hD []
      rw [List.append_nil] at hD0
      have hmade := createDirAll_repeatable hfs hname hready hD0 hmake
      have hplain := hmade.within.overlay.plain
      have hdir := (createDirAll_makesWay hfs (dst.text_child_ne_empty hname.toIsSegment)
        hmake).isDir
      rw [← hmade.within.overlay.locate] at hS hD
      have hcopied := copyEntries_repeatable ih hplain hdir hS hD
        (fun e he => FileSystem.isName_of_mem_readDir hplain hlist he) hcopy
      rw [hmade.within.overlay.locate] at hcopied
      refine ⟨hmade.within.trans hcopied.within, fun other hlike => ?_⟩
      obtain ⟨other1, hmake', hlike1⟩ := hmade.again other hlike
      obtain ⟨other2, hcopy', hlike2⟩ := hcopied.again other1 hlike1
      have hlist' : other1.readDir src = .ok entries :=
        FileSystem.readDir_congr hplain hlike1.overlay hlist fun below => hlike1.same _ (hS below)
      exact ⟨other2, (copyTreeTo_succ_eq_ok_iff hsame).2
        ⟨hinto, other1, entries, hmake', hlist', hcopy'⟩, hlike2⟩

/-! ## One match -/

theorem copyEntry_of_dir {place : Place} {es : List (String × Node)}
    (h : fs.stat src = .ok (place, .dir es)) :
    copyEntry src dst fs = copyTree src dst fs := by
  have hask : ask (fun fs => fs.stat src) fs = .ok (place, .dir es) fs :=
    ask_eq_ok_iff.2 ⟨h, rfl⟩
  rw [copyEntry, bind_of_ok hask]

theorem copyEntry_of_file {place : Place} {b : ByteArray}
    (h : fs.stat src = .ok (place, .file b)) :
    copyEntry src dst fs = .ok () fs' ↔ ∃ n, copyFile src dst fs = .ok n fs' := by
  have hask : ask (fun fs => fs.stat src) fs = .ok (place, .file b) fs :=
    ask_eq_ok_iff.2 ⟨h, rfl⟩
  rw [copyEntry, bind_of_ok hask, bind_eq_ok_iff]
  constructor
  · rintro ⟨n, fs1, hcopy, hend⟩
    cases hend
    exact ⟨n, hcopy⟩
  · rintro ⟨n, hcopy⟩
    exact ⟨n, fs', hcopy, rfl⟩

/-- **A copy returns if and only if** the path leads to a directory that can be copied as a tree,
or to a file that can be copied as one. -/
theorem copyEntry_eq_ok_iff (hfs : fs.Plain) :
    copyEntry src dst fs = .ok () fs'
      ↔ fs.isDir src = true ∧ copyTree src dst fs = .ok () fs'
        ∨ fs.isFile src = true ∧ ∃ n, copyFile src dst fs = .ok n fs' := by
  cases hstat : fs.stat src with
  | error e =>
      rw [FileSystem.isDir, FileSystem.isFile, hstat]
      constructor
      · intro h
        obtain ⟨found, fs1, hask, -⟩ := bind_eq_ok_iff.1 h
        cases hstat.symm.trans (ask_eq_ok_iff.1 hask).1
      · rintro (⟨hdir, -⟩ | ⟨hfile, -⟩)
        · cases hdir
        · cases hfile
  | ok found =>
      obtain ⟨place, node⟩ := found
      rw [FileSystem.isDir, FileSystem.isFile, hstat]
      cases node with
      | dir es => simp [copyEntry_of_dir hstat]
      | file b => simp [copyEntry_of_file hstat]
      | link t =>
          obtain ⟨-, -, hnode, -⟩ := (FileSystem.stat_eq_ok_iff hfs).1 hstat
          refine absurd ?_ (hfs.no_link place t)
          rw [FileSystem.entryAt?_eq_map, hnode]
          rfl

theorem leads_of_copyEntry (hfs : fs.Plain) (h : copyEntry src dst fs = .ok () fs') :
    fs.Leads src ∧ fs.entryAt? (fs.locate src) ≠ none := by
  rcases (copyEntry_eq_ok_iff hfs).1 h with ⟨hdir, -⟩ | ⟨hfile, -⟩
  · obtain ⟨hleads, hentry⟩ := (FileSystem.isDir_iff hfs).1 hdir
    exact ⟨hleads, by rw [hentry]; simp⟩
  · obtain ⟨hleads, -, b, hb⟩ := (FileSystem.isFile_iff hfs).1 hfile
    exact ⟨hleads, by rw [hb]; simp⟩

theorem ensureParent_of_same (hfs : fs.Plain) (hleads : fs.Leads src)
    (hsame : src.same dst = true) : ensureParent dst fs = .ok () fs := by
  have hparts : src.parts = dst.parts := by
    rw [HostPath.same, beq_iff_eq] at hsame
    exact hsame
  have hparent : ensureParent dst = ensureParent src := by
    rw [ensureParent, ensureParent, HostPath.parent?, HostPath.parent?, hparts]
  rw [hparent]
  exact ensureParent_of_leads hfs hleads

/-- **A copy can be started behind the parents of its new place.** -/
theorem copyEntry_behind_parents (hfs : fs.Plain) (hname : IsPart name)
    (h : copyEntry src (dst.child name) fs = .ok () fs') :
    ∃ fs1, ensureParent (dst.child name) fs = .ok () fs1
      ∧ copyEntry src (dst.child name) fs1 = .ok () fs' := by
  obtain ⟨hleads, -⟩ := leads_of_copyEntry hfs h
  by_cases hsame : src.same (dst.child name) = true
  · exact ⟨fs, ensureParent_of_same hfs hleads hsame, h⟩
  rw [Bool.not_eq_true] at hsame
  rcases (copyEntry_eq_ok_iff hfs).1 h with ⟨hdir, hcopy⟩ | ⟨hfile, n, hcopy⟩
  · obtain ⟨hinto, fs2, entries, hmake, hlist, hentries⟩ :=
      (copyTreeTo_succ_eq_ok_iff hsame).1 hcopy
    obtain ⟨fs1, hparent, hmake⟩ := createDirAll_behind_parents hfs hname hmake
    have hgrows := (ensureParent_ends hfs (dst.child name)).of_ok hparent
    refine ⟨fs1, hparent, (copyEntry_eq_ok_iff hgrows.plain).2 (Or.inl
      ⟨Overlay.isDir hgrows hfs hdir, ?_⟩)⟩
    exact (copyTreeTo_succ_eq_ok_iff hsame).2
      ⟨hinto, fs2, entries, createDirAll_of_makeOrFind hgrows.plain hmake, hlist, hentries⟩
  · obtain ⟨b, fs1, -, hb, hn, hparent, hleads', hslash, hnot, rfl⟩ :=
      (copyFile_eq_ok_iff hfs hsame).1 hcopy
    have hgrows := (ensureParent_ends hfs (dst.child name)).of_ok hparent
    have hb' : fs1.entryAt? (fs1.locate src) = some (.file b) := by
      rw [hgrows.locate]
      exact hgrows.file_iff.2 hb
    have hfile' : fs1.isFile src = true := by
      obtain ⟨-, hslashSrc, -⟩ := (FileSystem.isFile_iff hfs).1 hfile
      exact (FileSystem.isFile_iff hgrows.plain).2 ⟨Overlay.leads hgrows hleads, hslashSrc, b, hb'⟩
    refine ⟨fs1, hparent, (copyEntry_eq_ok_iff hgrows.plain).2 (Or.inr ⟨hfile', n, ?_⟩)⟩
    exact (copyFile_eq_ok_iff hgrows.plain hsame).2
      ⟨b, fs1, hfile', hb', hn, ensureParent_of_leads hgrows.plain hleads', hleads', hslash, hnot,
        rfl⟩

/-- **The copy of a match can be repeated** in every tree that is alike at the match and at its new
place, once the parents of that are there. -/
theorem copyEntry_repeatable (hfs : fs.Plain) (hname : IsPart name)
    (hready : ensureParent (dst.child name) fs = .ok () fs)
    (hS : ∀ below, Z (fs.locate src ++ below))
    (hD : ∀ below, Z (fs.locate (dst.child name) ++ below))
    (h : copyEntry src (dst.child name) fs = .ok () fs') :
    Repeatable Z (fs.locate (dst.child name) <+: ·) (copyEntry src (dst.child name)) fs () fs' := by
  rcases (copyEntry_eq_ok_iff hfs).1 h with ⟨hdir, hcopy⟩ | ⟨hfile, n, hcopy⟩
  · have hcopied := copyTreeTo_repeatable pathLimit Z fs fs' src dst name hfs hname hready hS hD
      hcopy
    refine ⟨hcopied.within, fun other hlike => ?_⟩
    obtain ⟨other', hcopy', hlike'⟩ := hcopied.again other hlike
    exact ⟨other', (copyEntry_eq_ok_iff hlike.overlay.plain).2
      (Or.inl ⟨hlike.overlay.isDir hfs hdir, hcopy'⟩), hlike'⟩
  · have hS0 := hS []
    have hD0 := hD []
    rw [List.append_nil] at hS0 hD0
    have hcopied := copyFile_repeatable hfs hready hS hD0 hcopy
    refine ⟨hcopied.within, fun other hlike => ?_⟩
    obtain ⟨other', hcopy', hlike'⟩ := hcopied.again other hlike
    exact ⟨other', (copyEntry_eq_ok_iff hlike.overlay.plain).2
      (Or.inr ⟨hlike.isFile hfs hS0 hfile, n, hcopy'⟩), hlike'⟩

end FileAction

end PackageScript
