import PackageScript.Proofs.Files.Layers
import PackageScript.Proofs.Files.Move

set_option autoImplicit false

/-! # A tree copy lays one tree over another

A copy of a directory makes the way to its new place and lays the tree over what is there
(`copyTreeTo_lays`), if neither place is in the other. Each entry is a piece of the tree: a file is
put in its new place, and a directory is laid by the copy of a smaller depth. A second copy finds
every directory made and every file in its place, so that it changes nothing
(`copyTreeTo_again`).
-/

namespace PackageScript

/-- **Neither place is at or below the other.** -/
def Place.Disjoint (a b : Place) : Prop := ¬ a <+: b ∧ ¬ b <+: a

namespace Place.Disjoint

variable {a b : Place}

theorem not_prefix_append (h : Disjoint a b) (below : Place) : ¬ a <+: b ++ below := fun hp =>
  (List.prefix_or_prefix_of_prefix hp (List.prefix_append b below)).elim h.1 h.2

theorem append (h : Disjoint a b) (more below : Place) : Disjoint (a ++ more) (b ++ below) :=
  ⟨fun hp => h.not_prefix_append below ((List.prefix_append a more).trans hp),
    fun hp => Disjoint.not_prefix_append ⟨h.2, h.1⟩ more ((List.prefix_append b below).trans hp)⟩

end Place.Disjoint

namespace FileSystem

variable {fs fs' : FileSystem} {p : HostPath}

theorem readDir_congr {W : Place → Prop} (hfs : fs.Plain) (hover : Overlay W fs fs')
    {listing : List (String × Entry)} (h : fs.readDir p = .ok listing)
    (hsame : ∀ below, fs'.entryAt? (fs.locate p ++ below) = fs.entryAt? (fs.locate p ++ below)) :
    fs'.readDir p = .ok listing := by
  obtain ⟨hleads, es, hes, rfl⟩ := readDir_eq_ok hfs h
  have hstat : fs'.stat p = .ok (fs'.locate p, .dir es) :=
    (stat_eq_ok_iff hover.plain).2 ⟨hover.leads hleads, rfl, by
      rw [hover.locate, node?_congr hsame, hes], fun _ => rfl⟩
  rw [readDir, hstat]

/-- **The tree that stood at `src` stands at both places.** -/
structure Twinned (src dst : Place) (fs fs' : FileSystem) : Prop where
  source : ∀ below, fs'.entryAt? (src ++ below) = fs.entryAt? (src ++ below)
  copy : ∀ below, fs.entryAt? (src ++ below) ≠ none →
    fs'.entryAt? (dst ++ below) = fs.entryAt? (src ++ below)

theorem Twinned.below {src dst : Place} (h : Twinned src dst fs fs') (names : Place) :
    Twinned (src ++ names) (dst ++ names) fs fs' := by
  refine ⟨fun below => ?_, fun below => ?_⟩
  · rw [List.append_assoc]
    exact h.source _
  · rw [List.append_assoc, List.append_assoc]
    exact h.copy _

/-- It does not matter what else has changed since the tree stood at `src`. -/
theorem Twinned.of_source {src dst : Place} {fs1 : FileSystem} (h : Twinned src dst fs fs')
    (hsame : ∀ below, fs1.entryAt? (src ++ below) = fs.entryAt? (src ++ below)) :
    Twinned src dst fs1 fs' := by
  refine ⟨fun below => ?_, fun below hne => ?_⟩
  · rw [hsame]
    exact h.source below
  · rw [hsame] at hne ⊢
    exact h.copy below hne

end FileSystem

namespace FileAction

open FileSystem (Overlay Grows Opened Laid Twinned)

variable {fs fs' fs'' : FileSystem} {src dst : HostPath} {S D : Place}
variable {copyDir : HostPath → HostPath → FileAction Unit}

/-! ## The steps of a copy -/

/-- One entry is copied as a tree if it is a directory, and else as a file. -/
def EntryCopied (copyDir : HostPath → HostPath → FileAction Unit) (src dst : HostPath) (e : Entry)
    (fs fs' : FileSystem) : Prop :=
  match e with
  | .dir => copyDir src dst fs = .ok () fs'
  | _ => ∃ n, copyFile src dst fs = .ok n fs'

theorem copyEntries_cons_eq_ok_iff {name : String} {e : Entry} {rest : List (String × Entry)} :
    copyEntries copyDir src dst ((name, e) :: rest) fs = .ok () fs'
      ↔ ∃ fs1, EntryCopied copyDir (src.child name) (dst.child name) e fs fs1
        ∧ copyEntries copyDir src dst rest fs1 = .ok () fs' := by
  have htree : (do
        copyDir (src.child name) (dst.child name)
        copyEntries copyDir src dst rest) fs = .ok () fs'
      ↔ ∃ fs1, copyDir (src.child name) (dst.child name) fs = .ok () fs1
        ∧ copyEntries copyDir src dst rest fs1 = .ok () fs' := by
    rw [bind_eq_ok_iff]
    exact ⟨fun ⟨_, fs1, h⟩ => ⟨fs1, h⟩, fun ⟨fs1, h⟩ => ⟨(), fs1, h⟩⟩
  have hfile : (do
        let _ ← copyFile (src.child name) (dst.child name)
        copyEntries copyDir src dst rest) fs = .ok () fs'
      ↔ ∃ fs1, (∃ n, copyFile (src.child name) (dst.child name) fs = .ok n fs1)
        ∧ copyEntries copyDir src dst rest fs1 = .ok () fs' := by
    rw [bind_eq_ok_iff]
    exact ⟨fun ⟨n, fs1, h, hrest⟩ => ⟨fs1, ⟨n, h⟩, hrest⟩,
      fun ⟨fs1, ⟨n, h⟩, hrest⟩ => ⟨n, fs1, h, hrest⟩⟩
  cases e with
  | dir => exact htree
  | file b => exact hfile
  | link t => exact hfile

theorem copyTreeTo_succ_eq_ok_iff {depth : Nat} (hother : src.same dst = false) :
    copyTreeTo (depth + 1) src dst fs = .ok () fs'
      ↔ src.isStartOf dst = false ∧ ∃ fs1 entries, createDirAll dst fs = .ok () fs1
        ∧ fs1.readDir src = .ok entries
        ∧ copyEntries (copyTreeTo depth) src dst entries fs1 = .ok () fs' := by
  rw [copyTreeTo]
  dsimp only
  rw [if_neg (by simp [hother])]
  by_cases hinto : src.isStartOf dst = true
  · rw [if_pos hinto, hinto]
    exact ⟨fun h => (by cases h), fun h => (by cases h.1)⟩
  rw [if_neg hinto, bind_eq_ok_iff, Bool.eq_false_iff.2 hinto]
  constructor
  · rintro ⟨⟨⟩, fs1, hmake, hrest⟩
    obtain ⟨entries, fs2, hask, hcopy⟩ := bind_eq_ok_iff.1 hrest
    obtain ⟨hlist, rfl⟩ := ask_eq_ok_iff.1 hask
    exact ⟨rfl, fs2, entries, hmake, hlist, hcopy⟩
  · rintro ⟨-, fs1, entries, hmake, hlist, hcopy⟩
    exact ⟨(), fs1, hmake, bind_eq_ok_iff.2 ⟨entries, fs1, ask_eq_ok_iff.2 ⟨hlist, rfl⟩, hcopy⟩⟩

theorem same_eq_false (h : Place.Disjoint (fs.locate src) (fs.locate dst)) :
    src.same dst = false :=
  fs.same_eq_false_of_ne fun heq => h.1 (heq ▸ List.prefix_rfl)

/-! ## What is copied -/

/-- **What the copying of a directory is relied on for**: it opens the way to the new place and
lays everything there. -/
def LaysTrees (copyDir : HostPath → HostPath → FileAction Unit) : Prop :=
  ∀ (fs fs' : FileSystem) (src dst : HostPath), fs.Plain → ".." ∉ dst.steps →
    (dst.text ≠ "" ∨ fs.entryAt? (fs.locate dst) = some .dir) →
    Place.Disjoint (fs.locate src) (fs.locate dst) → copyDir src dst fs = .ok () fs' →
    ∃ fs1, Opened (fs.locate dst) fs fs1
      ∧ Laid (fun below => fs.entryAt? (fs.locate src ++ below) ≠ none) (fs.locate src)
        (fs.locate dst) fs1 fs'

/-- **One entry of a directory is laid over a directory.** -/
theorem EntryCopied.laid (hcopyDir : LaysTrees copyDir) (hfs : fs.Plain) (hS : fs.locate src = S)
    (hD : fs.locate dst = D) (hdots : ".." ∉ dst.steps) (hdir : fs.entryAt? D = some .dir)
    (hdisjoint : Place.Disjoint S D) {name : String} {e : Entry}
    (he : fs.entryAt? (S ++ [name]) = some e)
    (h : EntryCopied copyDir (src.child name) (dst.child name) e fs fs') :
    Laid (fun below => [name] <+: below ∧ fs.entryAt? (S ++ below) ≠ none) S D fs fs' := by
  have hname : IsName name := hfs.isName S name (by rw [he]; simp)
  have hsrc : fs.locate (src.child name) = S ++ [name] := by
    rw [fs.locate_child src hname.toIsPart, hS]
  have hdst : fs.locate (dst.child name) = D ++ [name] := by
    rw [fs.locate_child dst hname.toIsPart, hD]
  have hchildren := hdisjoint.append [name] [name]
  have hother : (src.child name).same (dst.child name) = false :=
    same_eq_false (by rw [hsrc, hdst]; exact hchildren)
  have hfile : (∃ n, copyFile (src.child name) (dst.child name) fs = .ok n fs') →
      Laid (fun below => [name] <+: below ∧ fs.entryAt? (S ++ below) ≠ none) S D fs fs' := by
    rintro ⟨n, hcopy⟩
    obtain ⟨b, fs1, -, hb, -, hparent, hleads, -, hnot, rfl⟩ :=
      (copyFile_eq_ok_iff hfs hother).1 hcopy
    obtain rfl := eq_of_ensureParent_child hfs hname.toIsPart hdots (by rw [hD]; exact hdir) hparent
    rw [hsrc] at hb
    have hslot := hleads.slot hfs hnot
    rw [hdst] at hslot hnot ⊢
    -- a file has nothing below it, so one place is all that is laid
    refine (Laid.setFile hfs hslot hnot hb).congr fun below => ⟨?_, ?_⟩
    · rintro rfl
      exact ⟨List.prefix_rfl, by rw [hb]; simp⟩
    · rintro ⟨⟨more, rfl⟩, hmore⟩
      rw [← List.append_assoc] at hmore
      rw [FileSystem.eq_nil_of_below_file hb hmore, List.append_nil]
  cases e with
  | file b => exact hfile h
  | link t => exact hfile h
  | dir =>
      have hsteps := HostPath.dots_not_mem_steps_child hdots hname.toIsPart
      obtain ⟨fs1, hopened, hlaid⟩ := hcopyDir fs fs' _ _ hfs hsteps
        (Or.inl (dst.text_child_ne_empty hname.toIsSegment)) (by rw [hsrc, hdst]; exact hchildren) h
      rw [hdst] at hopened
      rw [hsrc, hdst] at hlaid
      have hwhole := Laid.of_opened hopened hlaid (by rw [List.append_nil, he]; simp)
        (fun q hq hne => ?_) hchildren.1
      · refine hwhole.above.congr fun below => ⟨?_, ?_⟩
        · rintro ⟨more, rfl, hmore⟩
          rw [List.append_assoc] at hmore
          exact ⟨List.prefix_append _ _, hmore⟩
        · rintro ⟨⟨more, rfl⟩, hmore⟩
          rw [← List.append_assoc] at hmore
          exact ⟨more, rfl, hmore⟩
      · rw [List.prefix_concat_iff] at hq
        exact FileSystem.dir_of_prefix_dir hdir (hq.resolve_left hne)

/-- **Entries are laid one after the other.** -/
theorem copyEntries_laid (hcopyDir : LaysTrees copyDir) (hfs : fs.Plain) (hS : fs.locate src = S)
    (hD : fs.locate dst = D) (hdots : ".." ∉ dst.steps) (hdir : fs.entryAt? D = some .dir)
    (hdisjoint : Place.Disjoint S D) {entries : List (String × Entry)}
    (hentries : ∀ e ∈ entries, fs.entryAt? (S ++ [e.1]) = some e.2)
    (h : copyEntries copyDir src dst entries fs = .ok () fs') :
    Laid (fun below => ∃ e ∈ entries, [e.1] <+: below ∧ fs.entryAt? (S ++ below) ≠ none) S D
      fs fs' := by
  induction entries generalizing fs with
  | nil =>
      cases h
      exact .none hfs fun below hP => by
        obtain ⟨e, he, -⟩ := hP
        cases he
  | cons entry rest ih =>
      obtain ⟨name, e⟩ := entry
      obtain ⟨fs1, hentry, hrest⟩ := copyEntries_cons_eq_ok_iff.1 h
      have hlaid := hentry.laid hcopyDir hfs hS hD hdots hdir hdisjoint
        (hentries (name, e) List.mem_cons_self)
      have hfree : ∀ below, ([name] <+: below ∧ fs.entryAt? (S ++ below) ≠ none) →
          ¬ S <+: D ++ below := fun below _ => hdisjoint.not_prefix_append below
      have hsource := hlaid.source hfree
      have hlaid' := ih hlaid.plain ((FileSystem.locate_congr hlaid.home src).trans hS)
        ((FileSystem.locate_congr hlaid.home dst).trans hD) (hlaid.dirs D hdir)
        (fun e' he' => by rw [hsource, hentries e' (List.mem_cons_of_mem _ he')]) hrest
      refine (hlaid.trans hlaid' hfree).congr fun below => ?_
      simp only [hsource, List.mem_cons, or_and_right, exists_or, exists_eq_left]

/-- **What a copy of a directory goes through**: the way to its new place is opened, and what the
directory lists is copied, the directory being as it was. -/
structure TreeSteps (depth : Nat) (src dst : HostPath) (fs fs1 fs' : FileSystem)
    (entries : List (String × Entry)) : Prop where
  not_into : src.isStartOf dst = false
  made : createDirAll dst fs = .ok () fs1
  listed : fs1.readDir src = .ok entries
  copied : copyEntries (copyTreeTo depth) src dst entries fs1 = .ok () fs'
  opened : Opened (fs.locate dst) fs fs1
  source : ∀ below, fs1.entryAt? (fs.locate src ++ below) = fs.entryAt? (fs.locate src ++ below)
  mem : ∀ e, e ∈ entries ↔ fs1.entryAt? (fs.locate src ++ [e.1]) = some e.2

theorem exists_treeSteps {depth : Nat} (hfs : fs.Plain) (hdots : ".." ∉ dst.steps)
    (hplace : dst.text ≠ "" ∨ fs.entryAt? (fs.locate dst) = some .dir)
    (hdisjoint : Place.Disjoint (fs.locate src) (fs.locate dst))
    (h : copyTreeTo (depth + 1) src dst fs = .ok () fs') :
    ∃ fs1 entries, TreeSteps depth src dst fs fs1 fs' entries := by
  obtain ⟨hinto, fs1, entries, hmake, hlist, hcopy⟩ :=
    (copyTreeTo_succ_eq_ok_iff (same_eq_false hdisjoint)).1 h
  have hopened : Opened (fs.locate dst) fs fs1 := by
    by_cases hempty : dst.text = ""
    · rw [createDirAll_of_empty hempty] at hmake
      cases hmake
      exact .refl hfs (hplace.resolve_left fun hne => hne hempty)
    · exact (createDirAll_makesWay hfs hempty hmake).opened (HostPath.dots_not_mem_parts hdots)
  refine ⟨fs1, entries, hinto, hmake, hlist, hcopy, hopened, fun below => ?_, fun e => ?_⟩
  · exact hopened.rest _ fun hp => hdisjoint.1 ((List.prefix_append _ below).trans hp)
  · rw [← hopened.grows.locate]
    exact FileSystem.mem_readDir hopened.grows.plain hlist

/-- What is below a directory that is listed is at or below one of its entries. -/
theorem exists_entry_of_below {entries : List (String × Entry)}
    (hmem : ∀ e, e ∈ entries ↔ fs.entryAt? (S ++ [e.1]) = some e.2) {below : Place}
    (hne : fs.entryAt? (S ++ below) ≠ none) (hbelow : below ≠ []) :
    ∃ e ∈ entries, [e.1] <+: below := by
  obtain ⟨name, more, rfl⟩ := List.exists_cons_of_ne_nil hbelow
  have hentry : fs.entryAt? (S ++ [name]) ≠ none := by
    cases more with
    | nil => exact hne
    | cons next more =>
        rw [List.append_cons] at hne
        rw [FileSystem.dir_of_below hne]
        simp
  obtain ⟨e, he⟩ := Option.ne_none_iff_exists'.1 hentry
  exact ⟨(name, e), (hmem (name, e)).2 he, List.prefix_append [name] more⟩

/-- **A copy of any depth lays the tree.** -/
theorem copyTreeTo_lays (depth : Nat) : LaysTrees (copyTreeTo depth) := by
  induction depth with
  | zero =>
      intro fs fs' src dst _ _ _ _ h
      cases h
  | succ depth ih =>
      intro fs fs' src dst hfs hdots hplace hdisjoint h
      obtain ⟨fs1, entries, hsteps⟩ := exists_treeSteps hfs hdots hplace hdisjoint h
      have hplain := hsteps.opened.grows.plain
      have hdirD := hsteps.opened.way _ List.prefix_rfl
      have hdirS : fs1.entryAt? (fs.locate src) = some .dir := by
        rw [← hsteps.opened.grows.locate]
        exact FileSystem.dir_of_readDir hplain hsteps.listed
      have hroot : Laid (Eq []) (fs.locate src) (fs.locate dst) fs1 fs1 :=
        .dir hplain (by rw [List.append_nil, hdirD]) (by rw [List.append_nil, hdirS])
      have hlaid := copyEntries_laid ih hplain (hsteps.opened.grows.locate src)
        (hsteps.opened.grows.locate dst) hdots hdirD hdisjoint (fun e he => (hsteps.mem e).1 he)
        hsteps.copied
      refine ⟨fs1, hsteps.opened, (hroot.trans hlaid fun below _ =>
        hdisjoint.not_prefix_append below).congr fun below => ?_⟩
      rw [← hsteps.source]
      constructor
      · rintro (rfl | ⟨e, -, -, hne⟩)
        · rw [List.append_nil, hdirS]
          simp
        · exact hne
      · intro hne
        by_cases hbelow : below = []
        · exact Or.inl hbelow.symm
        · obtain ⟨e, he, hp⟩ := exists_entry_of_below hsteps.mem hne hbelow
          exact Or.inr ⟨e, he, hp, hne⟩

/-! ## Copying again -/

/-- **What a second copy is relied on for**: it changes nothing if the tree stands at both
places. -/
def RepeatsTrees (copyDir : HostPath → HostPath → FileAction Unit) : Prop :=
  ∀ (fs fs' fs'' : FileSystem) (src dst : HostPath), fs.Plain → ".." ∉ dst.steps →
    (dst.text ≠ "" ∨ fs.entryAt? (fs.locate dst) = some .dir) →
    Place.Disjoint (fs.locate src) (fs.locate dst) → copyDir src dst fs = .ok () fs' →
    Overlay (fun _ => True) fs' fs'' → Twinned (fs.locate src) (fs.locate dst) fs fs'' →
    copyDir src dst fs'' = .ok () fs''

theorem EntryCopied.again (hagain : RepeatsTrees copyDir) (hfs : fs.Plain)
    (hS : fs.locate src = S) (hD : fs.locate dst = D) (hdots : ".." ∉ dst.steps)
    (hdisjoint : Place.Disjoint S D) {name : String} {e : Entry}
    (he : fs.entryAt? (S ++ [name]) = some e)
    (h : EntryCopied copyDir (src.child name) (dst.child name) e fs fs')
    (hover : Overlay (fun _ => True) fs' fs'') (htwin : Twinned S D fs fs'') :
    EntryCopied copyDir (src.child name) (dst.child name) e fs'' fs'' := by
  have hname : IsName name := hfs.isName S name (by rw [he]; simp)
  have hsrc : fs.locate (src.child name) = S ++ [name] := by
    rw [fs.locate_child src hname.toIsPart, hS]
  have hdst : fs.locate (dst.child name) = D ++ [name] := by
    rw [fs.locate_child dst hname.toIsPart, hD]
  have hchildren : Place.Disjoint (fs.locate (src.child name)) (fs.locate (dst.child name)) := by
    rw [hsrc, hdst]
    exact hdisjoint.append [name] [name]
  have hfile : (∃ n, copyFile (src.child name) (dst.child name) fs = .ok n fs') →
      ∃ n, copyFile (src.child name) (dst.child name) fs'' = .ok n fs'' := by
    rintro ⟨n, hcopy⟩
    refine ⟨n, copyFile_again hfs (same_eq_false hchildren) hcopy hover ?_ ?_⟩
    · rw [hsrc, htwin.source]
    · rw [hsrc, hdst]
      exact htwin.copy [name] (by rw [he]; simp)
  cases e with
  | file b => exact hfile h
  | link t => exact hfile h
  | dir =>
      have hsteps := HostPath.dots_not_mem_steps_child hdots hname.toIsPart
      refine hagain fs fs' fs'' _ _ hfs hsteps
        (Or.inl (dst.text_child_ne_empty hname.toIsSegment)) hchildren h hover ?_
      rw [hsrc, hdst]
      exact htwin.below [name]

theorem copyEntries_again (hcopyDir : LaysTrees copyDir) (hagain : RepeatsTrees copyDir)
    (hfs : fs.Plain) (hS : fs.locate src = S) (hD : fs.locate dst = D) (hdots : ".." ∉ dst.steps)
    (hdir : fs.entryAt? D = some .dir) (hdisjoint : Place.Disjoint S D)
    {entries : List (String × Entry)}
    (hentries : ∀ e ∈ entries, fs.entryAt? (S ++ [e.1]) = some e.2)
    (h : copyEntries copyDir src dst entries fs = .ok () fs')
    (hover : Overlay (fun _ => True) fs' fs'') (htwin : Twinned S D fs fs'') :
    copyEntries copyDir src dst entries fs'' = .ok () fs'' := by
  induction entries generalizing fs with
  | nil => rfl
  | cons entry rest ih =>
      obtain ⟨name, e⟩ := entry
      obtain ⟨fs1, hentry, hrest⟩ := copyEntries_cons_eq_ok_iff.1 h
      have he := hentries (name, e) List.mem_cons_self
      have hlaid := hentry.laid hcopyDir hfs hS hD hdots hdir hdisjoint he
      have hsource := hlaid.source fun below _ => hdisjoint.not_prefix_append below
      have hS1 := (FileSystem.locate_congr hlaid.home src).trans hS
      have hD1 := (FileSystem.locate_congr hlaid.home dst).trans hD
      have hdir1 := hlaid.dirs D hdir
      have hentries1 : ∀ e' ∈ rest, fs1.entryAt? (S ++ [e'.1]) = some e'.2 := fun e' he' => by
        rw [hsource, hentries e' (List.mem_cons_of_mem _ he')]
      have hlaid' := copyEntries_laid hcopyDir hlaid.plain hS1 hD1 hdots hdir1 hdisjoint hentries1
        hrest
      exact copyEntries_cons_eq_ok_iff.2 ⟨fs'',
        hentry.again hagain hfs hS hD hdots hdisjoint he (hlaid'.overlay.trans hover) htwin,
        ih hlaid.plain hS1 hD1 hdir1 hentries1 hrest (htwin.of_source hsource)⟩

/-- **A tree that has been copied is copied again without any change.** -/
theorem copyTreeTo_again (depth : Nat) : RepeatsTrees (copyTreeTo depth) := by
  induction depth with
  | zero =>
      intro fs fs' fs'' src dst _ _ _ _ h
      cases h
  | succ depth ih =>
      intro fs fs' fs'' src dst hfs hdots hplace hdisjoint h hover htwin
      obtain ⟨fs1, entries, hsteps⟩ := exists_treeSteps hfs hdots hplace hdisjoint h
      have hplain := hsteps.opened.grows.plain
      have hS := hsteps.opened.grows.locate src
      have hD := hsteps.opened.grows.locate dst
      have hdirD := hsteps.opened.way _ List.prefix_rfl
      have hentries : ∀ e ∈ entries, fs1.entryAt? (fs.locate src ++ [e.1]) = some e.2 :=
        fun e he => (hsteps.mem e).1 he
      have hlaid := copyEntries_laid (copyTreeTo_lays depth) hplain hS hD hdots hdirD hdisjoint
        hentries hsteps.copied
      have hover1 : Overlay (fun _ => True) fs1 fs'' := hlaid.overlay.trans hover
      have htwin1 := htwin.of_source hsteps.source
      refine (copyTreeTo_succ_eq_ok_iff (same_eq_false hdisjoint)).2 ⟨hsteps.not_into, fs'',
        entries, createDirAll_again hfs hsteps.made hover1, ?_, ?_⟩
      · refine FileSystem.readDir_congr hplain hover1 hsteps.listed fun below => ?_
        rw [hS]
        exact htwin1.source below
      · exact copyEntries_again (copyTreeTo_lays depth) ih hplain hS hD hdots hdirD hdisjoint
          hentries hsteps.copied hover htwin1

/-! ## The exact overlay -/

/-- Nothing is copied below the empty path when there is no working directory. -/
theorem EntryCopied.origin_dir {depth : Nat} (hfs : fs.Plain) (hempty : dst.text = "")
    {name : String} {e : Entry} (hname : IsPart name)
    (hother : (src.child name).same (dst.child name) = false)
    (h : EntryCopied (copyTreeTo depth) (src.child name) (dst.child name) e fs fs') :
    fs.entryAt? (fs.origin dst) = some .dir := by
  rw [← fs.origin_child dst hname.toIsSegment]
  have hfile : (∃ n, copyFile (src.child name) (dst.child name) fs = .ok n fs') →
      fs.entryAt? (fs.origin (dst.child name)) = some .dir := by
    rintro ⟨n, hcopy⟩
    obtain ⟨b, fs1, -, -, -, hparent, hleads, -⟩ := (copyFile_eq_ok_iff hfs hother).1 hcopy
    have hparts : dst.parts = [] := HostPath.parts_eq_nil_iff.2 hempty
    rw [ensureParent_child dst hname, hparts,
      createDirAll_of_empty (p := .ofParts []) rfl] at hparent
    cases hparent
    exact hleads.origin_dir
  cases e with
  | file b => exact hfile h
  | link t => exact hfile h
  | dir =>
      cases depth with
      | zero => cases h
      | succ depth =>
          obtain ⟨-, fs1, -, hmake, -⟩ := (copyTreeTo_succ_eq_ok_iff hother).1 h
          exact (createDirAll_makesWay hfs (dst.text_child_ne_empty hname.toIsSegment)
            hmake).origin_dir

/-- The empty path leads to the working directory. Without one nothing is copied there, which
succeeds if there is nothing to copy. -/
theorem copyTreeTo_nowhere {depth : Nat} (hfs : fs.Plain) (hempty : dst.text = "")
    (hnot : fs.entryAt? (fs.locate dst) ≠ some .dir)
    (hdisjoint : Place.Disjoint (fs.locate src) (fs.locate dst))
    (h : copyTreeTo (depth + 1) src dst fs = .ok () fs') :
    fs' = fs ∧ ∀ below, below ≠ [] → fs.entryAt? (fs.locate src ++ below) = none := by
  obtain ⟨-, fs1, entries, hmake, hlist, hcopy⟩ :=
    (copyTreeTo_succ_eq_ok_iff (same_eq_false hdisjoint)).1 h
  rw [createDirAll_of_empty hempty] at hmake
  cases hmake
  have hmem : ∀ e, e ∈ entries ↔ fs.entryAt? (fs.locate src ++ [e.1]) = some e.2 := fun e =>
    FileSystem.mem_readDir hfs hlist
  have horigin : fs.locate dst = fs.origin dst := by
    have hsteps : dst.steps = [] := by rw [HostPath.steps_eq, hempty]; rfl
    rw [FileSystem.locate, hsteps, List.foldl_nil]
  cases entries with
  | nil =>
      cases hcopy
      refine ⟨rfl, fun below hbelow => Decidable.byContradiction fun hne => ?_⟩
      obtain ⟨e, he, -⟩ := exists_entry_of_below hmem hne hbelow
      cases he
  | cons entry rest =>
      obtain ⟨name, e⟩ := entry
      obtain ⟨fs1, hentry, -⟩ := copyEntries_cons_eq_ok_iff.1 hcopy
      have he := (hmem (name, e)).1 List.mem_cons_self
      have hname : IsName name := hfs.isName _ name (by rw [he]; simp)
      have hchildren : Place.Disjoint (fs.locate (src.child name))
          (fs.locate (dst.child name)) := by
        rw [fs.locate_child src hname.toIsPart, fs.locate_child dst hname.toIsPart]
        exact hdisjoint.append [name] [name]
      have hother := same_eq_false hchildren
      rw [horigin] at hnot
      exact absurd (hentry.origin_dir hfs hempty hname.toIsPart hother) hnot

/-- **A tree copy is an exact overlay.** If a directory is copied to a place apart from it and the
copy succeeds, then whatever stood below the directory stands below the new place as well, what
else is there stays, and nothing else happens but that the directories above the new place
appear. Copying again changes nothing. The root of the tree itself has no counterpart in one
case: the empty path names no place when the working directory is gone. -/
theorem copyTree_overlays (hfs : fs.Plain) (hsrc : fs.isDir src = true) (hdots : ".." ∉ dst.steps)
    (hdisjoint : Place.Disjoint (fs.locate src) (fs.locate dst))
    (h : copyTree src dst fs = .ok () fs') :
    (∀ below e, fs.entryAt? (fs.locate src ++ below) = some e →
        (below = [] → dst.text ≠ "" ∨ fs.entryAt? fs.home = some .dir) →
        fs'.entryAt? (fs.locate dst ++ below) = some e)
      ∧ (∀ below, fs.entryAt? (fs.locate src ++ below) = none →
          fs'.entryAt? (fs.locate dst ++ below) = fs.entryAt? (fs.locate dst ++ below))
      ∧ (∀ below, fs'.entryAt? (fs.locate src ++ below) = fs.entryAt? (fs.locate src ++ below))
      ∧ (∀ q, ¬ fs.locate dst <+: q → fs'.entryAt? q = fs.entryAt? q
          ∨ q <+: fs.locate dst ∧ fs.entryAt? q = none ∧ fs'.entryAt? q = some .dir)
      ∧ fs'.home = fs.home
      ∧ copyTree src dst fs' = .ok () fs' := by
  have hdirS := ((FileSystem.isDir_iff hfs).1 hsrc).2
  by_cases hplace : dst.text ≠ "" ∨ fs.entryAt? (fs.locate dst) = some .dir
  · obtain ⟨fs1, hopened, hlaid⟩ := copyTreeTo_lays _ fs fs' src dst hfs hdots hplace hdisjoint h
    have hsource1 : ∀ below,
        fs1.entryAt? (fs.locate src ++ below) = fs.entryAt? (fs.locate src ++ below) :=
      fun below => hopened.rest _ fun hp =>
        hdisjoint.1 ((List.prefix_append _ below).trans hp)
    have hsource : ∀ below,
        fs'.entryAt? (fs.locate src ++ below) = fs.entryAt? (fs.locate src ++ below) :=
      fun below => by
        rw [hlaid.source (fun more _ => hdisjoint.not_prefix_append more), hsource1]
    have hcopy : ∀ below, fs.entryAt? (fs.locate src ++ below) ≠ none →
        fs'.entryAt? (fs.locate dst ++ below) = fs.entryAt? (fs.locate src ++ below) :=
      fun below hne => by rw [hlaid.made below hne, hsource1]
    refine ⟨fun below e he _ => ?_, fun below hnone => ?_, hsource, fun q hq => ?_,
      hlaid.home.trans (Overlay.home hopened.grows), ?_⟩
    · rw [hcopy below (by rw [he]; simp), he]
    · -- only names below the new place can be without a counterpart
      have hrest : ¬ fs.locate dst ++ below <+: fs.locate dst := by
        intro hp
        have hlength := hp.length_le
        rw [List.length_append] at hlength
        have hnil : below = [] := List.eq_nil_of_length_eq_zero (by omega)
        rw [hnil, List.append_nil, hdirS] at hnone
        cases hnone
      rw [hlaid.rest _ fun more hmore heq => hmore (List.append_cancel_left heq ▸ hnone),
        hopened.rest _ hrest]
    · rw [hlaid.rest q fun more _ heq => hq (heq ▸ List.prefix_append _ more)]
      by_cases hp : q <+: fs.locate dst
      · rcases Overlay.rest hopened.grows q id with heq | ⟨hnone, hdir⟩
        · exact Or.inl heq
        · exact Or.inr ⟨hp, hnone, hdir⟩
      · exact Or.inl (hopened.rest q hp)
    · exact copyTreeTo_again _ fs fs' fs' src dst hfs hdots hplace hdisjoint h (.refl hlaid.plain)
        ⟨hsource, hcopy⟩
  · -- the empty path, and no working directory for it to name
    obtain ⟨hempty, hnot⟩ := not_or.1 hplace
    replace hempty : dst.text = "" := Decidable.not_not.1 hempty
    have hcopy : copyTreeTo (4095 + 1) src dst fs = .ok () fs' := h
    obtain ⟨rfl, hnone⟩ := copyTreeTo_nowhere hfs hempty hnot hdisjoint hcopy
    refine ⟨fun below e he hroot => ?_, fun _ _ => rfl, fun _ => rfl, fun _ _ => Or.inl rfl, rfl,
      h⟩
    by_cases hbelow : below = []
    · have hhome : fs'.locate dst = fs'.home := by
        rw [FileSystem.locate, FileSystem.origin, HostPath.isRooted, HostPath.steps_eq, hempty]
        rfl
      rw [hhome] at hnot
      exact absurd ((hroot hbelow).resolve_left fun hne => hne hempty) hnot
    · rw [hnone below hbelow] at he
      cases he

/-- A directory with one file is copied to a place whose parent is missing: the file is there
afterwards, and a second copy changes nothing. -/
theorem folder_copied :
    folder.Plain ∧ folder.isDir ⟨"/d"⟩ = true ∧ ".." ∉ HostPath.steps ⟨"/new/place"⟩
      ∧ Place.Disjoint (folder.locate ⟨"/d"⟩) (folder.locate ⟨"/new/place"⟩)
      ∧ ∃ fs', copyTree ⟨"/d"⟩ ⟨"/new/place"⟩ folder = .ok () fs'
        ∧ fs'.entryAt? (folder.locate ⟨"/new/place"⟩ ++ ["a"]) = some (.file ⟨#[49]⟩)
        ∧ copyTree ⟨"/d"⟩ ⟨"/new/place"⟩ fs' = .ok () fs' := by
  have hdir : folder.isDir ⟨"/d"⟩ = true := by decide +kernel
  have hdots : ".." ∉ HostPath.steps ⟨"/new/place"⟩ := by decide +kernel
  have hsrc : folder.locate ⟨"/d"⟩ = ["d"] := by decide +kernel
  have hdst : folder.locate ⟨"/new/place"⟩ = ["new", "place"] := by decide +kernel
  have hdisjoint : Place.Disjoint (folder.locate ⟨"/d"⟩) (folder.locate ⟨"/new/place"⟩) := by
    rw [hsrc, hdst]
    exact ⟨by decide, by decide⟩
  have hreturns : returns (copyTree ⟨"/d"⟩ ⟨"/new/place"⟩) folder = true := by decide +kernel
  obtain ⟨_, fs', hrun⟩ := returns_iff.1 hreturns
  obtain ⟨hcopied, -, -, -, -, hagain⟩ := copyTree_overlays folder_plain hdir hdots hdisjoint hrun
  refine ⟨folder_plain, hdir, hdots, hdisjoint, fs', hrun, hcopied ["a"] _ ?_
    (fun h => by cases h), hagain⟩
  rw [hsrc]
  rfl

end FileAction

end PackageScript
