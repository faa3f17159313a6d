import PackageScript.Proofs.Files.Dots
import PackageScript.Proofs.Files.Inventory
import PackageScript.Proofs.Files.Layers
import PackageScript.Proofs.Files.Move

set_option autoImplicit false

/-! # A mirror and its deletion undo each other

Mirroring goes through the inventory of a tree and makes the counterpart of each entry in another
tree. Deleting goes through the same inventory backwards. If the other tree has nothing where a
counterpart comes, each counterpart is made in a directory that is there by then
(`FileSystem.Mirrorable.turn`), and taking it away again gives the tree from before
(`FileSystem.Mirrorable.step`). So the deletion undoes the mirroring, the last step first
(`FileSystem.Mirrorable.run`), and never meets a directory that still holds something.
-/

namespace PackageScript

open MirrorEntry (fileCount)

/-! ## How a deletion ends -/

namespace MirrorDeletion

variable {d d' d'' : MirrorDeletion} {source target : HostPath}

/-- **Two deletions end the same**, whatever they were asked about on the way. -/
def SameEnd (d d' : MirrorDeletion) : Prop := d.outcome = d'.outcome ∧ d.files = d'.files

theorem SameEnd.refl (d : MirrorDeletion) : SameEnd d d := ⟨rfl, rfl⟩

theorem SameEnd.trans (h : SameEnd d d') (h' : SameEnd d' d'') : SameEnd d d'' :=
  ⟨h.1.trans h'.1, h.2.trans h'.2⟩

theorem ofEntries_root (fs : FileSystem) (deleted : Nat) :
    ofEntries (fun _ => false) source target [⟨[], true⟩] deleted fs
      = ⟨[], .ok deleted, fs⟩ := by
  rw [ofEntries, if_pos (by simp)]
  rfl

theorem ofEntries_cons_sameEnd (refuse : String → Bool) {fs fs' : FileSystem} {e : MirrorEntry}
    {n : Nat} (hnames : e.names ≠ []) (hallowed : refuse e.path.text = false)
    (hother : (source.down e.names).same (target.down e.names) = false)
    (hremove : FileAction.removeCounterpart e.isDir (target.down e.names) fs = .ok n fs')
    (rest : List MirrorEntry) (deleted : Nat) :
    SameEnd (ofEntries refuse source target (e :: rest) deleted fs)
      (ofEntries refuse source target rest (deleted + n) fs') := by
  have hempty : e.names.isEmpty = false := List.isEmpty_eq_false_iff.2 hnames
  have hpath : ∀ root : HostPath, root.join e.path = root.down e.names := fun _ => rfl
  rw [ofEntries, hpath, hpath, hempty, hother, hallowed, if_neg (by simp), if_neg (by simp),
    hremove]
  exact .refl _

end MirrorDeletion

namespace FileAction

open FileSystem (Overlay Grows Laid)

variable {fs fs' : FileSystem} {source target src p : HostPath} {name : String}

/-! ## One counterpart -/

/-- The counterpart of an entry is made as a directory or as a file. -/
def CounterpartMade (src dst : HostPath) (isDir : Bool) (fs fs' : FileSystem) : Prop :=
  if isDir then createDirAll dst fs = .ok () fs' else ∃ n, copyFile src dst fs = .ok n fs'

theorem mirrorCopy_eq (source target : HostPath) (fs : FileSystem) :
    mirrorCopy source target fs
      = mirrorCopyEntries source target (fs.mirrorEntries source).1 0 fs := rfl

theorem mirrorCopyEntries_cons_eq_ok_iff {e : MirrorEntry} {rest : List MirrorEntry}
    {copied n : Nat} (hother : (source.down e.names).same (target.down e.names) = false) :
    mirrorCopyEntries source target (e :: rest) copied fs = .ok n fs'
      ↔ ∃ fs1, CounterpartMade (source.down e.names) (target.down e.names) e.isDir fs fs1
        ∧ mirrorCopyEntries source target rest (copied + fileCount [e]) fs1 = .ok n fs' := by
  obtain ⟨names, isDir⟩ := e
  have hpath : ∀ root : HostPath, root.join (MirrorEntry.path ⟨names, isDir⟩) = root.down names :=
    fun _ => rfl
  rw [mirrorCopyEntries]
  dsimp only at hother ⊢
  rw [hpath, hpath, hother, if_neg (by simp)]
  cases isDir with
  | true =>
      rw [if_pos rfl, bind_eq_ok_iff]
      exact ⟨fun ⟨_, fs1, hmade, hrest⟩ => ⟨fs1, hmade, hrest⟩,
        fun ⟨fs1, hmade, hrest⟩ => ⟨(), fs1, hmade, hrest⟩⟩
  | false =>
      rw [if_neg (by simp), bind_eq_ok_iff]
      exact ⟨fun ⟨m, fs1, hcopy, hrest⟩ => ⟨fs1, ⟨m, hcopy⟩, hrest⟩,
        fun ⟨fs1, ⟨m, hcopy⟩, hrest⟩ => ⟨m, fs1, hcopy, hrest⟩⟩

theorem removeCounterpart_file (hfs : fs.Plain) (h : fs.isFile p = true) :
    removeCounterpart false p fs = .ok 1 (fs.erase (fs.locate p)) := by
  have hlook : fs.isNonDir p = true := by rw [FileSystem.isNonDir_eq_isFile hfs, h]
  rw [removeCounterpart, if_neg (by simp)]
  refine bind_eq_ok_iff.2 ⟨true, fs, by rw [look, hlook], ?_⟩
  rw [if_pos rfl]
  exact bind_eq_ok_iff.2 ⟨(), _, removeFile_eq_ok hfs h, rfl⟩

theorem removeCounterpart_dir (hfs : fs.Plain) (hname : IsPart name)
    (hempty : fs.readDir (p.child name) = .ok []) :
    removeCounterpart true (p.child name) fs = .ok 0 (fs.erase (fs.locate (p.child name))) := by
  obtain ⟨hleads, -⟩ := FileSystem.readDir_eq_ok hfs hempty
  have hlook : fs.isDir (p.child name) = true :=
    (FileSystem.isDir_iff hfs).2 ⟨hleads, FileSystem.dir_of_readDir hfs hempty⟩
  rw [removeCounterpart, if_pos rfl]
  refine bind_eq_ok_iff.2 ⟨true, fs, by rw [look, hlook], ?_⟩
  rw [if_pos rfl]
  refine bind_eq_ok_iff.2 ⟨[], fs, ask_eq_ok_iff.2 ⟨hempty, rfl⟩, ?_⟩
  exact bind_eq_ok_iff.2 ⟨(), _, removeDir_eq_ok hfs hname hempty, rfl⟩

/-- **A directory is made where nothing stands, and removed again.** -/
theorem dirCounterpart_undone (src : HostPath) (hfs : fs.Plain) (hname : IsPart name)
    (hleads : fs.Leads (p.child name)) (hnone : fs.entryAt? (fs.locate (p.child name)) = none) :
    CounterpartMade src (p.child name) true fs (fs.setDir (fs.locate (p.child name)))
      ∧ removeCounterpart true (p.child name) (fs.setDir (fs.locate (p.child name)))
        = .ok 0 fs := by
  have hslot := hleads.slot hfs (by rw [hnone]; simp)
  have hgrows : Grows fs (fs.setDir (fs.locate (p.child name))) := Overlay.setDir hfs hslot hnone
  have hentry := FileSystem.entryAt?_setDir hslot hnone
  have hdir := hentry (fs.locate (p.child name))
  rw [if_pos rfl] at hdir
  refine ⟨createDirAll_of_vacant hfs hleads hnone, ?_⟩
  obtain ⟨listing, hlisting⟩ := FileSystem.readDir_isOk hgrows.plain
    (Overlay.leads hgrows hleads) (by rw [hgrows.locate, hdir])
  -- where nothing stood before, nothing is in the new directory
  have hnil : listing = [] := by
    rw [List.eq_nil_iff_forall_not_mem]
    rintro ⟨k, e⟩ hmem
    rw [FileSystem.mem_readDir hgrows.plain hlisting, hgrows.locate, hentry, if_neg (by simp),
      FileSystem.entryAt?_below_none hnone] at hmem
    cases hmem
  rw [removeCounterpart_dir hgrows.plain hname (hnil ▸ hlisting), hgrows.locate,
    FileSystem.erase_of_vacant hnone (hslot.mono (Overlay.dirs hgrows)) rfl fun q hq => by
      rw [hentry, if_neg hq]]

/-- **A file is copied to where nothing stands, and removed again.** -/
theorem fileCounterpart_undone (hfs : fs.Plain) (hsrc : fs.isFile src = true) {b : ByteArray}
    (hb : fs.entryAt? (fs.locate src) = some (.file b)) (hname : IsPart name)
    (hparent : fs.isDir p = true) (hleads : fs.Leads (p.child name))
    (hnone : fs.entryAt? (fs.locate (p.child name)) = none) :
    CounterpartMade src (p.child name) false fs (fs.setFile (fs.locate (p.child name)) b)
      ∧ removeCounterpart false (p.child name) (fs.setFile (fs.locate (p.child name)) b)
        = .ok 1 fs := by
  have hnot : fs.entryAt? (fs.locate (p.child name)) ≠ some .dir := by rw [hnone]; simp
  have hslot := hleads.slot hfs hnot
  have hover : Overlay (fun _ => True) fs (fs.setFile (fs.locate (p.child name)) b) :=
    .setFile hfs hslot hnot trivial b
  have hentry := FileSystem.entryAt?_setFile hslot hnot b
  have hslash : (p.child name).endsWithSlash = false :=
    HostPath.endsWithSlash_child p hname.toIsSegment
  have hother : src.same (p.child name) = false := fs.same_eq_false_of_ne
    fun heq => by
      rw [heq, hnone] at hb
      cases hb
  refine ⟨⟨b.size, (copyFile_eq_ok_iff hfs hother).2 ⟨b, fs, hsrc, hb, rfl,
    ensureParent_child_of_isDir hfs hname hparent, hleads, hslash, hnot, rfl⟩⟩, ?_⟩
  have hfile : (fs.setFile (fs.locate (p.child name)) b).isFile (p.child name) = true :=
    (FileSystem.isFile_iff hover.plain).2 ⟨hover.leads hleads, hslash, b, by
      rw [hover.locate, hentry, if_pos rfl]⟩
  rw [removeCounterpart_file hover.plain hfile, hover.locate,
    FileSystem.erase_of_vacant hnone (hslot.mono hover.dirs) rfl fun q hq => by
      rw [hentry, if_neg hq]]

end FileAction

namespace FileSystem

open FileAction (CounterpartMade removeCounterpart mirrorCopyEntries mirrorCopy)
open MirrorDeletion (SameEnd ofEntries)

variable {fs fs' : FileSystem} {source target : HostPath} {entries : List MirrorEntry}

/-- **What a mirror starts from**: two directories, of which the second one is not in the first,
with nothing where a counterpart comes, and paths that are short enough. -/
structure Mirrorable (fs : FileSystem) (source target : HostPath) : Prop where
  plain : fs.Plain
  source_isDir : fs.isDir source = true
  target_isDir : fs.isDir target = true
  not_inside : ¬ fs.locate source <+: fs.locate target
  vacant : ∀ below, below ≠ [] → fs.entryAt? (fs.locate source ++ below) ≠ none →
    fs.entryAt? (fs.locate target ++ below) = none
  source_short : ∀ below, below ≠ [] → fs.entryAt? (fs.locate source ++ below) ≠ none →
    (source.down below).text.utf8ByteSize < pathLimit
  target_short : ∀ below, fs.entryAt? (fs.locate source ++ below) ≠ none →
    (target.down below).text.utf8ByteSize < pathLimit

/-- **The turn of an entry**: the source is as before, and in the target the directory around the
counterpart is there and the counterpart is not. -/
structure Turn (source target : HostPath) (above : Place) (name : String) (fs fs' : FileSystem) :
    Prop where
  plain : fs'.Plain
  home : fs'.home = fs.home
  source_isDir : fs'.isDir source = true
  source : ∀ below, fs'.entryAt? (fs.locate source ++ below)
    = fs.entryAt? (fs.locate source ++ below)
  parent : fs'.isDir (target.down above) = true
  leads : fs'.Leads (target.down (above ++ [name]))
  vacant : fs'.entryAt? (fs.locate target ++ (above ++ [name])) = none

/-- **A counterpart that was made and can be taken back**: it is laid from below `S` to below `T`,
nothing else has changed, and its removal gives the tree from before. -/
structure Undoable (source target : HostPath) (S T : Place) (e : MirrorEntry)
    (fs fs' : FileSystem) : Prop where
  made : CounterpartMade (source.down e.names) (target.down e.names) e.isDir fs fs'
  laid : Laid (Eq e.names) S T fs fs'
  removed : removeCounterpart e.isDir (target.down e.names) fs' = .ok (fileCount [e]) fs

namespace Mirrorable

/-- No counterpart comes at or below the source, also where the source is in the target. -/
theorem free (h : fs.Mirrorable source target) {below : Place}
    (hne : fs.entryAt? (fs.locate source ++ below) ≠ none) :
    ¬ fs.locate source <+: fs.locate target ++ below := by
  intro hp
  -- the source would have to be below the target, under names that it has something under
  obtain ⟨names, hnames⟩ := (List.prefix_or_prefix_of_prefix hp
    (List.prefix_append (fs.locate target) below)).resolve_left h.not_inside
  have hsource := ((isDir_iff h.plain).1 h.source_isDir).2
  have hnil : names ≠ [] := by
    rintro rfl
    rw [List.append_nil] at hnames
    exact h.not_inside (hnames ▸ List.prefix_rfl)
  have hbelow : names <+: below := by
    rw [← hnames] at hp
    exact (List.prefix_append_right_inj _).1 hp
  obtain ⟨rest, rfl⟩ := hbelow
  rw [← List.append_assoc] at hne
  have hthere : fs.entryAt? (fs.locate source ++ names) ≠ none := fun hnone =>
    hne (entryAt?_below_none hnone rest)
  have hnone := h.vacant names hnil hthere
  rw [hnames, hsource] at hnone
  cases hnone

theorem other (h : fs.Mirrorable source target) {names : List String}
    (hnames : ∀ n ∈ names, IsName n) :
    (source.down names).same (target.down names) = false := by
  have hparts : ∀ n ∈ names, IsPart n := fun n hn => (hnames n hn).toIsPart
  refine fs.same_eq_false_of_ne fun heq => h.not_inside ?_
  rw [fs.locate_down source hparts, fs.locate_down target hparts] at heq
  exact (List.append_cancel_right heq) ▸ List.prefix_rfl

theorem source_kept (h : fs.Mirrorable source target) {P : Place → Prop}
    (hlaid : Laid P (fs.locate source) (fs.locate target) fs fs')
    (hP : ∀ below, P below → fs.entryAt? (fs.locate source ++ below) ≠ none) (below : Place) :
    fs'.entryAt? (fs.locate source ++ below) = fs.entryAt? (fs.locate source ++ below) :=
  hlaid.source (fun _ hmore => h.free (hP _ hmore)) below

/-- The turn of an entry has come once the counterparts of all entries that were told before are
there, the directory around its own among them. -/
theorem turn (h : fs.Mirrorable source target) {done rest : List MirrorEntry} {above : Place}
    {name : String} {isDir : Bool}
    (hlists : fs.Lists (fs.locate source) (done ++ ⟨above ++ [name], isDir⟩ :: rest))
    (hlaid : Laid (· ∈ done.map MirrorEntry.names) (fs.locate source) (fs.locate target) fs fs') :
    Turn source target above name fs fs' := by
  have hlocate := locate_congr hlaid.home
  have htargetDir := hlaid.overlay.isDir h.plain h.target_isDir
  have hthere := hlists.ne_none (e := ⟨above ++ [name], isDir⟩) (by simp)
  have hnames := h.plain.isName_of_below hthere
  have habove := (hlists.dir_iff above).1 (List.mem_append_left _ hlists.above_mem)
  have htargetAbove : fs'.entryAt? (fs.locate target ++ above) = some .dir := by
    rw [hlaid.made above (List.mem_map.2 ⟨_, hlists.above_mem, rfl⟩), habove]
  refine ⟨hlaid.plain, hlaid.home, hlaid.overlay.isDir h.plain h.source_isDir,
    h.source_kept hlaid fun below hbelow => ?_, ?_, ?_, ?_⟩
  · obtain ⟨e', he', rfl⟩ := List.mem_map.1 hbelow
    exact hlists.ne_none (List.mem_append_left _ he')
  · exact isDir_down hlaid.plain htargetDir (by rw [hlocate, htargetAbove])
      (h.target_short _ (by rw [habove]; simp))
  · obtain ⟨hopen, hdir⟩ := (isDir_iff hlaid.plain).1 htargetDir
    refine hopen.down hnames hdir (fun _ => ?_) (h.target_short _ hthere)
    rw [hlocate, List.dropLast_concat, htargetAbove]
  · rw [hlaid.rest, h.vacant _ (by simp) hthere]
    intro below hbelow heq
    rw [List.append_cancel_left_eq] at heq
    exact hlists.names_not_mem (heq ▸ hbelow)

/-- **One counterpart is made in its turn and can be taken back.** -/
theorem step (h : fs.Mirrorable source target) {above : Place} {name : String} {isDir : Bool}
    {entries : List MirrorEntry} (hlists : fs.Lists (fs.locate source) entries)
    (he : ⟨above ++ [name], isDir⟩ ∈ entries) (hturn : Turn source target above name fs fs') :
    ∃ fs'', Undoable source target (fs.locate source) (fs.locate target)
      ⟨above ++ [name], isDir⟩ fs' fs'' := by
  have hthere := hlists.ne_none he
  have hnames := h.plain.isName_of_below hthere
  have hpart : IsPart name := (hnames name (by simp)).toIsPart
  have hplace : ∀ root : HostPath, fs'.locate (root.down (above ++ [name]))
      = fs.locate root ++ (above ++ [name]) := fun root => by
    rw [fs'.locate_down root fun n hn => (hnames n hn).toIsPart, locate_congr hturn.home]
  have hchild : target.down (above ++ [name]) = (target.down above).child name :=
    target.down_concat (fun n hn => (hnames n (by simp [hn])).toIsSegment) hpart.toIsSegment
  have htarget := hplace target
  have hleads := hturn.leads
  have hvacant := hturn.vacant
  have hslot := hleads.slot hturn.plain (by rw [htarget, hvacant]; simp)
  rw [htarget] at hslot
  rw [hchild] at hleads htarget
  rw [← htarget] at hvacant
  -- what is made stands alone at its place, so that taking it back removes it and no more
  cases isDir with
  | true =>
      have hdir := (hlists.dir_iff (above ++ [name])).1 he
      obtain ⟨hmade, hremove⟩ := FileAction.dirCounterpart_undone
        (source.down (above ++ [name])) hturn.plain hpart hleads hvacant
      rw [htarget] at hvacant hmade hremove
      rw [← hchild] at hmade hremove
      exact ⟨_, hmade, .setDir hturn.plain hslot hvacant (by rw [hturn.source, hdir]), hremove⟩
  | false =>
      obtain ⟨b, hb⟩ := (hlists.file_iff (above ++ [name])).1 he
      have hfile : fs'.isFile (source.down (above ++ [name])) = true :=
        isFile_down hturn.plain hturn.source_isDir
          (by rw [locate_congr hturn.home, hturn.source, hb])
          (h.source_short _ (by simp) hthere)
      obtain ⟨hmade, hremove⟩ := FileAction.fileCounterpart_undone hturn.plain hfile
        (by rw [hplace, hturn.source, hb]) hpart hturn.parent hleads hvacant
      rw [htarget] at hvacant hmade hremove
      rw [← hchild] at hmade hremove
      exact ⟨_, hmade, .setFile hturn.plain hslot (by rw [hvacant]; simp)
        (by rw [hturn.source, hb]), hremove⟩

/-- **All counterparts are made, and taken back in reverse.** -/
theorem run (h : fs.Mirrorable source target) {done rest : List MirrorEntry}
    (hlists : fs.Lists (fs.locate source) (done ++ rest)) (hnames : ∀ e ∈ rest, e.names ≠ [])
    (hlaid : Laid (· ∈ done.map MirrorEntry.names) (fs.locate source) (fs.locate target) fs fs') :
    ∃ fs'', (∀ copied, mirrorCopyEntries source target rest copied fs'
        = .ok (copied + fileCount rest) fs'')
      ∧ Laid (· ∈ (done ++ rest).map MirrorEntry.names) (fs.locate source) (fs.locate target)
        fs fs''
      ∧ ∀ more deleted,
        SameEnd (ofEntries (fun _ => false) source target (rest.reverse ++ more) deleted fs'')
          (ofEntries (fun _ => false) source target more (deleted + fileCount rest) fs') := by
  -- by induction on what is left, the counterparts of what is done being all that was laid so far
  induction rest generalizing done fs' with
  | nil =>
      refine ⟨fs', fun _ => rfl, ?_, fun _ _ => .refl _⟩
      rw [List.append_nil]
      exact hlaid
  | cons e rest ih =>
      have he := hnames e List.mem_cons_self
      have hthere := hlists.ne_none (e := e) (by simp)
      have hother := h.other (h.plain.isName_of_below hthere)
      obtain ⟨fs1, hpiece⟩ : ∃ fs1,
          Undoable source target (fs.locate source) (fs.locate target) e fs' fs1 := by
        obtain ⟨names, isDir⟩ := e
        obtain ⟨above, name, rfl⟩ := (List.eq_nil_or_concat names).resolve_left he
        rw [List.concat_eq_append] at hlists ⊢
        exact h.step hlists (by simp) (h.turn hlists hlaid)
      have hlaid1 := hlaid.trans hpiece.laid fun below hbelow => by
        obtain ⟨e', he', rfl⟩ := List.mem_map.1 hbelow
        exact h.free (hlists.ne_none (List.mem_append_left _ he'))
      have hsplit : done ++ e :: rest = (done ++ [e]) ++ rest := by simp
      rw [hsplit] at hlists ⊢
      obtain ⟨fs'', hcopy, hall, hdelete⟩ := ih hlists
        (fun e' he' => hnames e' (List.mem_cons_of_mem _ he'))
        (hlaid1.congr fun below => by simp [eq_comm])
      refine ⟨fs'', fun copied => ?_, hall, fun more deleted => ?_⟩
      · refine (FileAction.mirrorCopyEntries_cons_eq_ok_iff hother).2 ⟨fs1, hpiece.made, ?_⟩
        rw [hcopy, MirrorEntry.fileCount_cons e rest, Nat.add_assoc]
      · have hlast := MirrorDeletion.ofEntries_cons_sameEnd (fun _ => false) he rfl hother
          hpiece.removed more (deleted + fileCount rest)
        rw [Nat.add_assoc, Nat.add_comm (fileCount rest), ← MirrorEntry.fileCount_cons] at hlast
        rw [List.reverse_cons, List.append_assoc, List.singleton_append]
        exact (hdelete (e :: more) deleted).trans hlast

theorem root (h : fs.Mirrorable source target) :
    CounterpartMade (source.down []) (target.down []) true fs fs := by
  obtain ⟨-, hsource⟩ := (isDir_iff h.plain).1 h.source_isDir
  obtain ⟨-, htarget⟩ := (isDir_iff h.plain).1 h.target_isDir
  refine FileAction.createDirAll_of_isDir h.plain (isDir_down h.plain h.target_isDir ?_
    (h.target_short [] ?_))
  · rw [List.append_nil, htarget]
  · rw [List.append_nil, hsource]
    simp

/-- A walk of the source tells its whole inventory, as long as the source is as before. -/
theorem mirrorEntries_eq (h : fs.Mirrorable source target) {W : Place → Prop}
    (hover : Overlay W fs fs')
    (hkept : ∀ below, fs'.entryAt? (fs.locate source ++ below)
      = fs.entryAt? (fs.locate source ++ below)) {n : Node}
    (hn : fs.node? (fs.locate source) = some n) : (fs'.mirrorEntries source).1 = n.inventory := by
  have hplace := hover.locate source
  refine FileSystem.mirrorEntries_eq hover.plain (hover.isDir h.plain h.source_isDir) ?_ ?_
  · rw [hplace, node?_congr hkept, hn]
  · intro below hdir
    rw [hplace, hkept] at hdir
    rw [MirrorEntry.canList, Bool.or_eq_true, List.isEmpty_iff, decide_eq_true_eq]
    by_cases hbelow : below = []
    · exact Or.inl hbelow
    · exact Or.inr (h.source_short below hbelow (by rw [hdir]; simp))

end Mirrorable

end FileSystem

namespace FileAction

open FileSystem (Overlay Laid)
open MirrorDeletion (ofEntries)

variable {fs : FileSystem} {source target : HostPath}

/-- **A mirror and its deletion are inverse.** The mirror counts the files of the source, and
afterwards what stands in the source stands in the target as well and nothing else has changed.
Deleting the mirror counts the same number, and the file system is exactly what it was. -/
theorem mirrorCopy_undone (h : fs.Mirrorable source target) :
    ∃ n fs', mirrorCopy source target fs = .ok n fs'
      ∧ (n : ℕ∞) = (fs.filesBelow (fs.locate source)).encard
      ∧ (∀ below, fs.entryAt? (fs.locate source ++ below) ≠ none →
          fs'.entryAt? (fs.locate target ++ below) = fs.entryAt? (fs.locate source ++ below))
      ∧ (∀ below, fs'.entryAt? (fs.locate source ++ below)
          = fs.entryAt? (fs.locate source ++ below))
      ∧ (∀ q, (∀ below, fs.entryAt? (fs.locate source ++ below) ≠ none →
            q ≠ fs.locate target ++ below) → fs'.entryAt? q = fs.entryAt? q)
      ∧ fs'.home = fs.home
      ∧ (fs'.mirrorDelete (fun _ => false) source target).outcome = .ok n
      ∧ (fs'.mirrorDelete (fun _ => false) source target).files = fs := by
  obtain ⟨-, hsource⟩ := (FileSystem.isDir_iff h.plain).1 h.source_isDir
  obtain ⟨-, htarget⟩ := (FileSystem.isDir_iff h.plain).1 h.target_isDir
  obtain ⟨es, hes⟩ := FileSystem.entryAt?_eq_dir_iff.1 hsource
  have hlists := FileSystem.lists_inventory h.plain hes
  have hentries := h.mirrorEntries_eq (.refl (W := fun _ => False) h.plain) (fun _ => rfl) hes
  -- the root comes first, and it is the only entry without names
  have hsplit : (Node.dir es).inventory = [⟨[], true⟩] ++ Node.inventoryOf es := rfl
  rw [hsplit] at hlists hentries
  have hnames : ∀ e ∈ Node.inventoryOf es, e.names ≠ [] := fun e he hnil =>
    (List.pairwise_cons.1 hlists.topDown).1 e he (hnil ▸ List.prefix_rfl)
  have hroot : Laid (Eq []) (fs.locate source) (fs.locate target) fs fs :=
    .dir h.plain (by rw [List.append_nil, htarget]) (by rw [List.append_nil, hsource])
  replace hroot : Laid (· ∈ [(⟨[], true⟩ : MirrorEntry)].map MirrorEntry.names) (fs.locate source)
      (fs.locate target) fs fs := hroot.congr fun below => by simp [eq_comm]
  obtain ⟨fs', hcopy, hlaid, hdelete⟩ := h.run hlists hnames hroot
  replace hlaid := hlaid.congr fun below => hlists.mem_names_iff h.plain
  have hkept := h.source_kept hlaid fun _ hne => hne
  have hentries' := h.mirrorEntries_eq hlaid.overlay hkept hes
  have hcount : fileCount ([⟨[], true⟩] ++ Node.inventoryOf es)
      = 0 + fileCount (Node.inventoryOf es) := MirrorEntry.fileCount_cons ⟨[], true⟩ _
  have hend := hdelete [⟨[], true⟩] 0
  have hdeletion : fs'.mirrorDelete (fun _ => false) source target
      = ofEntries (fun _ => false) source target ((Node.inventoryOf es).reverse ++ [⟨[], true⟩]) 0
          fs' := by
    rw [FileSystem.mirrorDelete, hentries', hsplit, List.reverse_append]
    rfl
  rw [← hdeletion, ← hcount, MirrorDeletion.ofEntries_root] at hend
  refine ⟨fileCount ([⟨[], true⟩] ++ Node.inventoryOf es), fs', ?_, hlists.fileCount_eq,
    hlaid.made, hkept, hlaid.rest, hlaid.home, hend.1, hend.2⟩
  rw [mirrorCopy_eq, hentries, List.singleton_append]
  refine (mirrorCopyEntries_cons_eq_ok_iff (h.other (by simp))).2 ⟨fs, h.root, ?_⟩
  rw [hcopy, MirrorEntry.fileCount_cons _ (Node.inventoryOf es), Nat.zero_add]

/-! ### Two mirrors of one folder -/

theorem mem_of_folder {below : Place} (h : folder.entryAt? (["d"] ++ below) ≠ none) :
    below = [] ∨ below = ["a"] := by
  have hroot : folder.root = .dir [("d", .dir [("a", .file ⟨#[49]⟩)])] := rfl
  have hfile : folder.entryAt? ["d", "a"] = some (.file ⟨#[49]⟩) := rfl
  cases below with
  | nil => exact Or.inl rfl
  | cons name more =>
      right
      by_cases hname : name = "a"
      · subst hname
        rw [List.cons_inj_right]
        exact FileSystem.eq_nil_of_below_file hfile h
      · refine absurd ?_ h
        simp [FileSystem.entryAt?, hroot, Node.entryAt?_cons, Node.child?, Node.entries,
          lookup_entry_cons, hname]

/-- Mirroring the folder into the root of the disk, in which it lies, makes one file there, and
the deletion takes it away again. -/
theorem folder_mirrored :
    folder.Mirrorable ⟨"/d"⟩ ⟨"/"⟩
      ∧ ∃ fs', mirrorCopy ⟨"/d"⟩ ⟨"/"⟩ folder = .ok 1 fs'
        ∧ fs'.entryAt? ["a"] = some (.file ⟨#[49]⟩)
        ∧ (fs'.mirrorDelete (fun _ => false) ⟨"/d"⟩ ⟨"/"⟩).files = folder := by
  have hsource : folder.locate ⟨"/d"⟩ = ["d"] := by decide +kernel
  have htarget : folder.locate ⟨"/"⟩ = [] := by decide +kernel
  have hready : folder.Mirrorable ⟨"/d"⟩ ⟨"/"⟩ := by
    refine ⟨folder_plain, by decide +kernel, by decide +kernel, ?_, ?_, ?_, ?_⟩ <;>
      rw [hsource] <;> try rw [htarget]
    · decide
    · intro below hbelow hne
      rw [(mem_of_folder hne).resolve_left hbelow]
      rfl
    · intro below hbelow hne
      rw [(mem_of_folder hne).resolve_left hbelow]
      decide +kernel
    · intro below hne
      rcases mem_of_folder hne with rfl | rfl <;> decide +kernel
  refine ⟨hready, ?_⟩
  obtain ⟨n, fs', hcopy, hcount, hmade, -, -, -, -, hback⟩ := mirrorCopy_undone hready
  have hfiles : folder.filesBelow (folder.locate ⟨"/d"⟩) = {["a"]} := by
    ext below
    rw [hsource, Set.mem_singleton_iff]
    constructor
    · rintro ⟨b, hb⟩
      rcases mem_of_folder (by rw [hb]; simp) with rfl | rfl
      · cases hb
      · rfl
    · rintro rfl
      exact ⟨_, rfl⟩
  rw [hfiles, Set.encard_singleton, Nat.cast_eq_one] at hcount
  have hthere : folder.entryAt? (["d"] ++ ["a"]) = some (.file ⟨#[49]⟩) := rfl
  have hfile := hmade ["a"] (by rw [hsource, hthere]; simp)
  rw [hsource, htarget, hthere] at hfile
  exact ⟨fs', hcount ▸ hcopy, hfile, hback⟩

/-- The folder is mirrored only where its file gets a path that is short enough. -/
theorem short_of_mirrorCopy {fs' : FileSystem} {k n : Nat}
    (h : mirrorCopy ⟨"/d"⟩ (HostPath.rootDots k) folder = .ok n fs') : k * 2 + 2 < pathLimit := by
  have hentries : (folder.mirrorEntries ⟨"/d"⟩).1 = [⟨[], true⟩, ⟨["a"], false⟩] := by
    decide +kernel
  have hother : ∀ names : List String, (∀ n ∈ names, IsPart n) →
      HostPath.same (HostPath.down ⟨"/d"⟩ names) ((HostPath.rootDots k).down names) = false := by
    intro names hnames
    have hsource : folder.locate ⟨"/d"⟩ = ["d"] := by decide +kernel
    refine folder.same_eq_false_of_ne ?_
    rw [folder.locate_down _ hnames, folder.locate_down _ hnames, hsource,
      folder.locate_rootDots]
    simp
  have hname : ∀ n ∈ ["a"], IsPart n := by
    simp only [List.mem_singleton, forall_eq]
    exact ⟨⟨by decide, by decide⟩, by decide, by decide⟩
  rw [mirrorCopy_eq, hentries,
    mirrorCopyEntries_cons_eq_ok_iff (e := ⟨[], true⟩) (hother [] (by simp))] at h
  obtain ⟨fs1, hroot, hrest⟩ := h
  have hmake : createDirAll ((HostPath.rootDots k).down []) folder = .ok () fs1 := hroot
  have hgrows := ((createDirAll_ends folder_plain _).of_ok hmake).1
  rw [mirrorCopyEntries_cons_eq_ok_iff (e := ⟨["a"], false⟩) (hother ["a"] hname)] at hrest
  obtain ⟨fs2, ⟨m, hfile⟩, -⟩ := hrest
  obtain ⟨b, fs3, -, -, -, -, hleads, -⟩ :=
    (copyFile_eq_ok_iff hgrows.plain (hother ["a"] hname)).1 hfile
  -- the names take as many bytes as that, each with its slash
  have hsegments : ∀ n ∈ ["a"], IsSegment n := fun n hn => (hname n hn).toIsSegment
  have hrooted : ((HostPath.rootDots k).down ["a"]).isRooted = true := by
    rw [HostPath.isRooted_down _ hsegments, HostPath.isRooted_rootDots]
  have hwidth := HostPath.width_le_of_rootDots hrooted (HostPath.steps_down _ hsegments)
  have hlast : Text.width ["a"] = 2 := rfl
  exact Nat.lt_of_le_of_lt (hlast ▸ hwidth) hleads.usable.short

/-- **A mirror fails on paths that are too long.** A target whose own path is short enough can be
too long with the name of a file behind it. -/
theorem mirrorCopy_of_long_target_fails :
    ¬ ∀ (fs : FileSystem) (source target : HostPath), fs.Plain → fs.isDir source = true →
      fs.isDir target = true → ".." ∉ source.steps → ".." ∉ target.steps →
      ¬ fs.locate source <+: fs.locate target →
      (∀ below, below ≠ [] → fs.entryAt? (fs.locate source ++ below) ≠ none →
        fs.entryAt? (fs.locate target ++ below) = none) →
      ∃ n fs', mirrorCopy source target fs = .ok n fs' := by
  intro hall
  have hsource : folder.locate ⟨"/d"⟩ = ["d"] := by decide +kernel
  have hlong : ∀ k, k * 2 + 1 < pathLimit → k * 2 + 2 < pathLimit := by
    intro k hshort
    have htarget := folder.locate_rootDots k
    obtain ⟨n, fs', hcopy⟩ := hall folder ⟨"/d"⟩ (HostPath.rootDots k) folder_plain
      (by decide +kernel) (FileSystem.isDir_rootDots folder_plain rfl hshort) (by decide +kernel)
      (HostPath.dots_not_mem_rootDots k)
      (by rw [hsource, htarget]; decide) (by
        intro below hbelow hne
        rw [hsource] at hne
        rw [(mem_of_folder hne).resolve_left hbelow, htarget]
        rfl)
    exact short_of_mirrorCopy hcopy
  exact absurd (hlong 2047 (by decide)) (by decide)

end FileAction

end PackageScript
