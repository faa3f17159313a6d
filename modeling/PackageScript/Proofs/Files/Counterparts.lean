import PackageScript.Proofs.Files.Emptied
import PackageScript.Proofs.Files.Mirrors

set_option autoImplicit false

/-! # What the deletion of a mirror takes

The source is walked before anything is removed, so what is due is settled at the start, also where
one of the two trees lies in the other. The deletion goes through the inventory backwards, what is
below a directory before the directory. When the turn of a directory comes, everything in it that
goes is gone, and nothing above it is (`FileSystem.Swept.outside`). So a directory is found
empty exactly if everything in it was taken, and a file is found where one was at the start
(`FileSystem.Swept.removable_iff`). `FileSystem.Taken` says which places these are without
mentioning an order, and the deletion takes them and nothing else
(`FileSystem.mirrorDelete_takes`).
-/

namespace PackageScript

open MirrorEntry (TopDown fileCount)

namespace FileSystem

variable {fs fs' fs'' : FileSystem} {source target p : HostPath} {refuse : String → Bool}
variable {rel : Place} {isDir : Bool}

theorem readDir_eq_nil_iff (hfs : fs.Plain) :
    fs.readDir p = .ok []
      ↔ fs.isDir p = true ∧ ∀ name, fs.entryAt? (fs.locate p ++ [name]) = none := by
  constructor
  · intro hempty
    obtain ⟨hleads, -⟩ := readDir_eq_ok hfs hempty
    refine ⟨(isDir_iff hfs).2 ⟨hleads, dir_of_readDir hfs hempty⟩, fun name => ?_⟩
    rw [Option.eq_none_iff_forall_ne_some]
    intro x hx
    cases (mem_readDir hfs hempty).2 hx
  · rintro ⟨hdir, hnone⟩
    obtain ⟨hleads, hentry⟩ := (isDir_iff hfs).1 hdir
    obtain ⟨listing, hlisting⟩ := readDir_isOk hfs hleads hentry
    have hnil : listing = [] := by
      rw [List.eq_nil_iff_forall_not_mem]
      rintro ⟨name, x⟩ hmem
      rw [mem_readDir hfs hlisting, hnone] at hmem
      cases hmem
    rw [hlisting, hnil]

/-! ## What a walk tells -/

theorem mirrorEntries_of_lstat (hfs : fs.Plain) {n : Node}
    (h : fs.lstat source = .ok (fs.locate source, n)) :
    (fs.mirrorEntries source).1
      = n.inventory.filter fun e => MirrorEntry.canList source e.names.dropLast := by
  rw [mirrorEntries, h]
  cases n with
  | dir es => rfl
  | file b => rfl
  | link t =>
      obtain ⟨-, -, hnode, -⟩ := (stat_eq_ok_iff hfs).1 ((lstat_eq_ok_iff hfs).1 h)
      refine absurd ?_ (hfs.no_link (fs.locate source) t)
      rw [entryAt?_eq_map, hnode]
      rfl

theorem mirrorEntries_of_error {e : FileError} (h : fs.lstat source = .error e) :
    (fs.mirrorEntries source).1 = [] := by
  rw [mirrorEntries, h]

/-- A walk tells what is above before what is below. -/
theorem topDown_mirrorEntries (hfs : fs.Plain) : TopDown (fs.mirrorEntries source).1 := by
  cases h : fs.lstat source with
  | error e =>
      rw [mirrorEntries_of_error h]
      exact List.Pairwise.nil
  | ok found =>
      obtain ⟨place, n⟩ := found
      obtain ⟨-, rfl, hnode, -⟩ := (stat_eq_ok_iff hfs).1 ((lstat_eq_ok_iff hfs).1 h)
      have hordered : n.Ordered := fs.ordered.get? hnode
      rw [mirrorEntries_of_lstat hfs h]
      exact List.Pairwise.filter _ hordered.topDown_inventory

/-- **What a walk tells below its root**: everything in a directory, as long as the directories
around it can be listed. -/
theorem mem_mirrorEntries_iff (hfs : fs.Plain) (hrel : rel ≠ []) :
    ⟨rel, isDir⟩ ∈ (fs.mirrorEntries source).1
      ↔ fs.isDir source = true ∧ MirrorEntry.canList source rel.dropLast = true
        ∧ ∃ n, fs.node? (fs.locate source ++ rel) = some n ∧ n.isDir = isDir := by
  cases h : fs.lstat source with
  | error e =>
      rw [mirrorEntries_of_error h]
      constructor
      · intro hmem
        cases hmem
      · rintro ⟨hdir, -⟩
        obtain ⟨hleads, es, hes⟩ := (isDir_iff hfs).1 hdir |>.imp_right entryAt?_eq_dir_iff.1
        rw [(lstat_eq_ok_iff hfs).2 ((stat_eq_ok_iff hfs).2 ⟨hleads, rfl, hes, fun _ => rfl⟩)] at h
        cases h
  | ok found =>
      obtain ⟨place, n⟩ := found
      obtain ⟨hleads, rfl, hnode, -⟩ := (stat_eq_ok_iff hfs).1 ((lstat_eq_ok_iff hfs).1 h)
      have hordered : n.Ordered := fs.ordered.get? hnode
      have hbelow : fs.node? (fs.locate source ++ rel) = n.get? rel := by
        rw [node?, Node.get?_append]
        rw [node?] at hnode
        rw [hnode, Option.bind_some]
      rw [mirrorEntries_of_lstat hfs h, List.mem_filter, hordered.mem_inventory_iff, hbelow]
      constructor
      · rintro ⟨⟨m, hm, hkind⟩, hlist⟩
        obtain ⟨name, more, rfl⟩ := List.exists_cons_of_ne_nil hrel
        have hthere : fs.entryAt? (fs.locate source ++ name :: more) ≠ none := by
          rw [entryAt?_eq_map, hbelow, hm]
          simp
        exact ⟨(isDir_iff hfs).2 ⟨hleads, dir_of_below hthere⟩, hlist, m, hm, hkind⟩
      · rintro ⟨-, hlist, hthere⟩
        exact ⟨hthere, hlist⟩

theorem dir_mem_mirrorEntries_iff (hfs : fs.Plain) (hrel : rel ≠ []) :
    ⟨rel, true⟩ ∈ (fs.mirrorEntries source).1
      ↔ fs.isDir source = true ∧ MirrorEntry.canList source rel.dropLast = true
        ∧ fs.entryAt? (fs.locate source ++ rel) = some .dir := by
  rw [mem_mirrorEntries_iff hfs hrel, entryAt?_eq_dir_iff]
  refine and_congr_right fun _ => and_congr_right fun _ => ?_
  constructor
  · rintro ⟨n, hn, hkind⟩
    cases n with
    | dir es => exact ⟨es, hn⟩
    | file b => cases hkind
    | link t => cases hkind
  · rintro ⟨es, hes⟩
    exact ⟨.dir es, hes, rfl⟩

theorem file_mem_mirrorEntries_iff (hfs : fs.Plain) (hrel : rel ≠ []) :
    ⟨rel, false⟩ ∈ (fs.mirrorEntries source).1
      ↔ fs.isDir source = true ∧ MirrorEntry.canList source rel.dropLast = true
        ∧ rel ∈ fs.filesBelow (fs.locate source) := by
  rw [mem_mirrorEntries_iff hfs hrel]
  refine and_congr_right fun _ => and_congr_right fun _ => ?_
  constructor
  · rintro ⟨n, hn, hkind⟩
    have hentry : fs.entryAt? (fs.locate source ++ rel) = some n.entry := by
      rw [entryAt?_eq_map, hn, Option.map_some]
    cases n with
    | dir es => cases hkind
    | file b => exact ⟨b, hentry⟩
    | link t => exact absurd hentry (hfs.no_link _ t)
  · rintro ⟨b, hb⟩
    exact ⟨.file b, entryAt?_eq_file_iff.1 hb, rfl⟩

/-! ## What goes -/

/-- **A counterpart that is due**: that of something below the source that the walk meets, for
which leave is given and which is not its own counterpart. -/
structure Due (fs : FileSystem) (refuse : String → Bool) (source target : HostPath)
    (rel : Place) : Prop where
  below : rel ≠ []
  source_isDir : fs.isDir source = true
  listed : MirrorEntry.canList source rel.dropLast = true
  allowed : refuse ("/".intercalate rel) = false
  other : (source.down rel).same (target.down rel) = false

/-- **What is taken below the target**: a file that is due where the source has a file, and a
directory that is due where the source has one, if everything in it is taken. -/
inductive Taken (fs : FileSystem) (refuse : String → Bool) (source target : HostPath) :
    Place → Prop
  | file {rel : Place} (due : fs.Due refuse source target rel)
      (source_file : rel ∈ fs.filesBelow (fs.locate source))
      (target_file : fs.isFile (target.down rel) = true) : Taken fs refuse source target rel
  | dir {rel : Place} (due : fs.Due refuse source target rel)
      (source_dir : fs.entryAt? (fs.locate source ++ rel) = some .dir)
      (target_dir : fs.isDir (target.down rel) = true)
      (emptied : ∀ name, fs.entryAt? (fs.locate target ++ (rel ++ [name])) ≠ none →
        Taken fs refuse source target (rel ++ [name])) : Taken fs refuse source target rel

namespace Taken

theorem due (h : fs.Taken refuse source target rel) : fs.Due refuse source target rel := by
  cases h with
  | file hdue _ _ => exact hdue
  | dir hdue _ _ _ => exact hdue

theorem mem_mirrorEntries (hfs : fs.Plain) (h : fs.Taken refuse source target rel) :
    ∃ isDir, ⟨rel, isDir⟩ ∈ (fs.mirrorEntries source).1 := by
  cases h with
  | file hdue hfile _ =>
      exact ⟨false, (file_mem_mirrorEntries_iff hfs hdue.below).2
        ⟨hdue.source_isDir, hdue.listed, hfile⟩⟩
  | dir hdue hdir _ _ =>
      exact ⟨true, (dir_mem_mirrorEntries_iff hfs hdue.below).2
        ⟨hdue.source_isDir, hdue.listed, hdir⟩⟩

theorem of_file (h : fs.Taken refuse source target rel)
    (hfile : rel ∈ fs.filesBelow (fs.locate source)) : fs.isFile (target.down rel) = true := by
  cases h with
  | file _ _ htarget => exact htarget
  | dir _ hdir _ _ =>
      obtain ⟨b, hb⟩ := hfile
      rw [hdir] at hb
      cases hb

theorem of_dir (h : fs.Taken refuse source target rel)
    (hdir : fs.entryAt? (fs.locate source ++ rel) = some .dir) :
    fs.isDir (target.down rel) = true
      ∧ ∀ name, fs.entryAt? (fs.locate target ++ (rel ++ [name])) ≠ none →
        fs.Taken refuse source target (rel ++ [name]) := by
  cases h with
  | file _ hfile _ =>
      obtain ⟨b, hb⟩ := hfile
      rw [hdir] at hb
      cases hb
  | dir _ _ htarget hemptied => exact ⟨htarget, hemptied⟩

theorem isPart (hfs : fs.Plain) (h : fs.Taken refuse source target rel) :
    ∀ n ∈ rel, IsPart n := by
  have hthere : fs.entryAt? (fs.locate source ++ rel) ≠ none := by
    cases h with
    | file _ hfile _ =>
        obtain ⟨b, hb⟩ := hfile
        rw [hb]
        simp
    | dir _ hdir _ _ =>
        rw [hdir]
        simp
  exact fun n hn => (hfs.isName_of_below hthere n hn).toIsPart

/-- **What lies in something that is taken is taken too.** -/
theorem inside (hfs : fs.Plain) (h : fs.Taken refuse source target rel) {more : Place}
    (hthere : fs.entryAt? (fs.locate target ++ (rel ++ more)) ≠ none) :
    fs.Taken refuse source target (rel ++ more) := by
  -- by induction on how it comes to be taken: more names lead into one entry of a directory
  induction h generalizing more with
  | @file rel hdue hsource htarget =>
      have hplace := fs.locate_down target ((Taken.file hdue hsource htarget).isPart hfs)
      obtain ⟨-, -, b, hb⟩ := (isFile_iff hfs).1 htarget
      rw [hplace] at hb
      rw [← List.append_assoc] at hthere
      rw [eq_nil_of_below_file hb hthere, List.append_nil]
      exact .file hdue hsource htarget
  | @dir rel hdue hsource htarget hemptied ih =>
      cases more with
      | nil =>
          rw [List.append_nil]
          exact .dir hdue hsource htarget hemptied
      | cons name more =>
          rw [List.append_cons] at hthere ⊢
          refine ih name (fun hnone => ?_) hthere
          rw [← List.append_assoc (fs.locate target)] at hthere
          exact hthere (entryAt?_below_none hnone more)

end Taken

end FileSystem

namespace FileAction

open FileSystem (Cleared)

variable {fs : FileSystem} {p : HostPath} {name : String} {isDir : Bool}

/-! ## One removal -/

/-- What is removed as the counterpart of a directory or of a file. -/
def Removable (isDir : Bool) (p : HostPath) (fs : FileSystem) : Prop :=
  if isDir then fs.readDir p = .ok [] else fs.isFile p = true

theorem Removable.there (hfs : fs.Plain) (h : Removable isDir p fs) :
    fs.entryAt? (fs.locate p) ≠ none := by
  cases isDir with
  | true =>
      rw [FileSystem.dir_of_readDir hfs h]
      simp
  | false =>
      obtain ⟨-, -, b, hb⟩ := (FileSystem.isFile_iff hfs).1 h
      rw [hb]
      simp

/-- What is removed is gone and nothing else is. A file is counted. -/
theorem removeCounterpart_of_removable (hfs : fs.Plain) (hname : IsPart name)
    (h : Removable isDir (p.child name) fs) :
    ∃ fs', removeCounterpart isDir (p.child name) fs = .ok (if isDir then 0 else 1) fs'
      ∧ Cleared [fs.locate (p.child name)] fs fs' := by
  have hslot : fs.Slot (fs.locate (p.child name)) := by
    have hthere := h.there hfs
    rw [fs.locate_child p hname] at hthere ⊢
    exact ⟨FileSystem.dir_of_below hthere, hfs.isName _ _ hthere⟩
  refine ⟨fs.erase (fs.locate (p.child name)), ?_, .of_prunes (.erase hfs hslot) ?_⟩
  · cases isDir with
    | true => exact removeCounterpart_dir hfs hname h
    | false => exact removeCounterpart_file hfs h
  · rw [FileSystem.entryAt?_erase hslot, if_pos List.prefix_rfl]

/-- What is not removed does no harm. -/
theorem removeCounterpart_of_not_removable (hfs : fs.Plain) (h : ¬ Removable isDir p fs) :
    removeCounterpart isDir p fs = .ok 0 fs := by
  cases isDir with
  | false =>
      have hfile : fs.isNonDir p = false := by
        rw [FileSystem.isNonDir_eq_isFile hfs]
        exact Bool.eq_false_iff.2 h
      rw [removeCounterpart, if_neg (by simp)]
      exact bind_eq_ok_iff.2 ⟨false, fs, by rw [look, hfile], rfl⟩
  | true =>
      rw [removeCounterpart, if_pos rfl]
      cases hdir : fs.isDir p with
      | false => exact bind_eq_ok_iff.2 ⟨false, fs, by rw [look, hdir], rfl⟩
      | true =>
          obtain ⟨hleads, hentry⟩ := (FileSystem.isDir_iff hfs).1 hdir
          obtain ⟨listing, hlisting⟩ := FileSystem.readDir_isOk hfs hleads hentry
          refine bind_eq_ok_iff.2 ⟨true, fs, by rw [look, hdir], ?_⟩
          rw [if_pos rfl]
          refine bind_eq_ok_iff.2 ⟨listing, fs, ask_eq_ok_iff.2 ⟨hlisting, rfl⟩, ?_⟩
          cases listing with
          | nil => exact absurd hlisting h
          | cons first rest => rfl

end FileAction

namespace MirrorDeletion

/-- The root, what is its own counterpart and what is refused are passed over. -/
theorem ofEntries_cons_skipped {refuse : String → Bool} {source target : HostPath}
    {fs : FileSystem} {e : MirrorEntry}
    (h : e.names = [] ∨ (source.down e.names).same (target.down e.names) = true
      ∨ refuse e.path.text = true) (rest : List MirrorEntry) (deleted : Nat) :
    SameEnd (ofEntries refuse source target (e :: rest) deleted fs)
      (ofEntries refuse source target rest deleted fs) := by
  have hpath : ∀ root : HostPath, root.join e.path = root.down e.names := fun _ => rfl
  rw [ofEntries, hpath, hpath]
  by_cases hskip : (e.names.isEmpty || (source.down e.names).same (target.down e.names)) = true
  · rw [if_pos hskip]
    exact .refl _
  · rw [if_neg hskip]
    rw [Bool.or_eq_true, not_or, List.isEmpty_iff] at hskip
    rw [if_pos ((h.resolve_left hskip.1).resolve_left hskip.2)]
    exact .refl _

end MirrorDeletion

namespace FileSystem

open FileAction (Removable)
open MirrorDeletion (SameEnd ofEntries)

variable {fs fs' fs'' : FileSystem} {source target : HostPath} {refuse : String → Bool}
variable {done todo : List MirrorEntry} {e : MirrorEntry} {tops : List Place}

/-! ## Going through the inventory -/

/-- **How far the deletion has come**: of the entries gone through, those that are taken have been
cleared away below the target, and nothing else has changed. -/
def Swept (fs : FileSystem) (refuse : String → Bool) (source target : HostPath)
    (done : List MirrorEntry) (fs' : FileSystem) : Prop :=
  ∃ tops, Cleared tops fs fs'
    ∧ ∀ q, q ∈ tops
      ↔ ∃ e ∈ done, fs.Taken refuse source target e.names ∧ q = fs.locate target ++ e.names

/-- **The turn of an entry**, as the deletion goes backwards: what is told later has been gone
through, and that does not lie above. -/
structure TurnBack (fs : FileSystem) (source : HostPath) (done : List MirrorEntry)
    (e : MirrorEntry) : Prop where
  mem : e ∈ (fs.mirrorEntries source).1
  not_above : ∀ e' ∈ done, ¬ e'.names <+: e.names
  below_mem : ∀ e' ∈ (fs.mirrorEntries source).1, e.names <+: e'.names → e' ≠ e → e' ∈ done

theorem turnBack_of_split (hfs : fs.Plain)
    (hsplit : (fs.mirrorEntries source).1.reverse = done ++ e :: todo) :
    TurnBack fs source done e := by
  have hmem : ∀ e', e' ∈ (fs.mirrorEntries source).1 ↔ e' ∈ done ∨ e' = e ∨ e' ∈ todo := by
    intro e'
    rw [← List.mem_reverse, hsplit, List.mem_append, List.mem_cons]
  have horder : (done ++ e :: todo).Pairwise fun a b => ¬ a.names <+: b.names := by
    rw [← hsplit, List.pairwise_reverse]
    exact topDown_mirrorEntries hfs
  obtain ⟨-, htail, hacross⟩ := List.pairwise_append.1 horder
  refine ⟨(hmem e).2 (.inr (.inl rfl)), fun e' he' => hacross e' he' e List.mem_cons_self,
    fun e' he' hp hne => ?_⟩
  rcases (hmem e').1 he' with hdone | heq | htodo
  · exact hdone
  · exact absurd heq hne
  · exact absurd hp ((List.pairwise_cons.1 htail).1 e' htodo)

theorem TurnBack.isPart (hfs : fs.Plain) (h : TurnBack fs source done e) (hne : e.names ≠ []) :
    ∀ n ∈ e.names, IsPart n := by
  obtain ⟨-, -, n, hn, -⟩ := (mem_mirrorEntries_iff hfs hne).1 h.mem
  have hthere : fs.entryAt? (fs.locate source ++ e.names) ≠ none := by
    rw [entryAt?_eq_map, hn]
    simp
  exact fun n hn => (hfs.isName_of_below hthere n hn).toIsPart

section

open scoped Classical

/-- The number of files that are taken, of the entries of an inventory. -/
noncomputable def takenFiles (fs : FileSystem) (refuse : String → Bool) (source target : HostPath)
    (entries : List MirrorEntry) : Nat :=
  entries.countP fun e => !e.isDir && decide (fs.Taken refuse source target e.names)

theorem takenFiles_cons (e : MirrorEntry) (rest : List MirrorEntry) :
    fs.takenFiles refuse source target (e :: rest)
      = fs.takenFiles refuse source target [e] + fs.takenFiles refuse source target rest := by
  rw [takenFiles, takenFiles, takenFiles, ← List.countP_append, List.singleton_append]

theorem takenFiles_of_taken (h : fs.Taken refuse source target e.names) :
    fs.takenFiles refuse source target [e] = if e.isDir then 0 else 1 := by
  rw [takenFiles, List.countP_singleton, decide_eq_true h]
  cases e.isDir <;> rfl

theorem takenFiles_of_not_taken (h : ¬ fs.Taken refuse source target e.names) :
    fs.takenFiles refuse source target [e] = 0 := by
  rw [takenFiles, List.countP_singleton, decide_eq_false h, Bool.and_false]
  rfl

/-- As many files are counted as are taken. -/
theorem takenFiles_eq (hfs : fs.Plain) :
    (fs.takenFiles refuse source target (fs.mirrorEntries source).1.reverse : ℕ∞)
      = {rel | rel ∈ fs.filesBelow (fs.locate source)
          ∧ fs.Taken refuse source target rel}.encard := by
  rw [takenFiles, List.countP_reverse, (topDown_mirrorEntries hfs).countP_eq]
  congr 1
  ext rel
  constructor
  · rintro ⟨⟨names, isDir⟩, hmem, hcounted, rfl⟩
    rw [Bool.and_eq_true, decide_eq_true_eq] at hcounted
    obtain ⟨hkind, htaken⟩ := hcounted
    cases isDir with
    | true => cases hkind
    | false =>
        exact ⟨((file_mem_mirrorEntries_iff hfs htaken.due.below).1 hmem).2.2, htaken⟩
  · rintro ⟨hfile, htaken⟩
    refine ⟨⟨rel, false⟩, ?_, ?_, rfl⟩
    · exact (file_mem_mirrorEntries_iff hfs htaken.due.below).2
        ⟨htaken.due.source_isDir, htaken.due.listed, hfile⟩
    · rw [decide_eq_true htaken]
      rfl

end

namespace Swept

theorem start (hfs : fs.Plain) : fs.Swept refuse source target [] fs :=
  ⟨[], .nil hfs, fun q => by simp⟩

theorem kept (h : fs.Swept refuse source target done fs')
    (hnot : ¬ fs.Taken refuse source target e.names) :
    fs.Swept refuse source target (done ++ [e]) fs' := by
  obtain ⟨tops, hcleared, htops⟩ := h
  refine ⟨tops, hcleared, fun q => (htops q).trans ?_⟩
  constructor
  · rintro ⟨e', he', htaken, hq⟩
    exact ⟨e', List.mem_append_left _ he', htaken, hq⟩
  · rintro ⟨e', he', htaken, hq⟩
    rcases List.mem_append.1 he' with he' | he'
    · exact ⟨e', he', htaken, hq⟩
    · rw [List.mem_singleton.1 he'] at htaken
      exact absurd htaken hnot

/-- The counterpart of an entry that is taken is cleared away. -/
theorem took (h : fs.Swept refuse source target done fs')
    (htaken : fs.Taken refuse source target e.names)
    (hcleared : Cleared [fs.locate target ++ e.names] fs' fs'') :
    fs.Swept refuse source target (done ++ [e]) fs'' := by
  obtain ⟨tops, hbefore, htops⟩ := h
  refine ⟨tops ++ [fs.locate target ++ e.names], hbefore.append hcleared, fun q => ?_⟩
  rw [List.mem_append, htops, List.mem_singleton]
  constructor
  · rintro (⟨e', he', hq⟩ | rfl)
    · exact ⟨e', List.mem_append_left _ he', hq⟩
    · exact ⟨e, by simp, htaken, rfl⟩
  · rintro ⟨e', he', htaken', hq⟩
    rcases List.mem_append.1 he' with he' | he'
    · exact .inl ⟨e', he', htaken', hq⟩
    · rw [List.mem_singleton.1 he'] at hq
      exact .inr hq

theorem outside (htops : ∀ q, q ∈ tops
      ↔ ∃ e ∈ done, fs.Taken refuse source target e.names ∧ q = fs.locate target ++ e.names)
    (hturn : TurnBack fs source done e) :
    ∀ top ∈ tops, ¬ top <+: fs.locate target ++ e.names := by
  intro top htop hp
  obtain ⟨e', he', -, rfl⟩ := (htops top).1 htop
  exact hturn.not_above e' he' ((List.prefix_append_right_inj _).1 hp)

/-- What lies in the directory whose turn it is has gone exactly if it is taken. -/
theorem gone_iff (hfs : fs.Plain) (h : fs.Swept refuse source target done fs')
    (hturn : TurnBack fs source done e) (name : String) :
    fs'.entryAt? (fs.locate target ++ (e.names ++ [name])) = none
      ↔ (fs.entryAt? (fs.locate target ++ (e.names ++ [name])) ≠ none →
        fs.Taken refuse source target (e.names ++ [name])) := by
  obtain ⟨tops, hcleared, htops⟩ := h
  by_cases hin : ∃ top ∈ tops, top <+: fs.locate target ++ (e.names ++ [name])
  · -- what was taken with it or around it does not lie above the directory
    obtain ⟨top, htop, hp⟩ := hin
    obtain ⟨e', he', htaken, rfl⟩ := (htops top).1 htop
    have hgone : fs'.entryAt? (fs.locate target ++ (e.names ++ [name])) = none := by
      obtain ⟨more, hmore⟩ := hp
      rw [← hmore]
      exact hcleared.gone _ htop more
    rcases List.prefix_concat_iff.1 ((List.prefix_append_right_inj _).1 hp) with heq | habove
    · rw [heq] at htaken
      exact iff_of_true hgone fun _ => htaken
    · exact absurd habove (hturn.not_above e' he')
  · rw [hcleared.rest _ fun top htop hp => hin ⟨top, htop, hp⟩]
    refine ⟨fun hnone hne => absurd hnone hne, fun htaken => ?_⟩
    apply Decidable.byContradiction
    intro hne
    -- the turn of what is taken in the directory has been before
    obtain ⟨isDir, hmem⟩ := (htaken hne).mem_mirrorEntries hfs
    have hdone := hturn.below_mem _ hmem (List.prefix_append _ _) fun heq =>
      absurd (congrArg MirrorEntry.names heq) (by simp)
    exact hin ⟨_, (htops _).2 ⟨_, hdone, htaken hne, rfl⟩, List.prefix_rfl⟩

/-- **In its turn a directory is found empty exactly if it is taken**, and a file is found exactly
if it is. -/
theorem removable_iff (hfs : fs.Plain) (hdots : ".." ∉ target.steps)
    (h : fs.Swept refuse source target done fs') (hturn : TurnBack fs source done e)
    (hdue : fs.Due refuse source target e.names) :
    Removable e.isDir (target.down e.names) fs' ↔ fs.Taken refuse source target e.names := by
  have hparts := hturn.isPart hfs hdue.below
  have hplace := fs.locate_down target hparts
  have hsteps : ".." ∉ (target.down e.names).steps := by
    rw [HostPath.steps_down target fun n hn => (hparts n hn).toIsSegment, List.mem_append, not_or]
    exact ⟨hdots, fun hmem => (hparts _ hmem).ne_dots rfl⟩
  have hgone := gone_iff hfs h hturn
  obtain ⟨tops, hcleared, htops⟩ := h
  have hout := outside htops hturn
  rw [← hplace] at hout
  have hmem := hturn.mem
  obtain ⟨rel, isDir⟩ := e
  cases isDir with
  | false =>
      obtain ⟨-, -, hfile⟩ := (file_mem_mirrorEntries_iff hfs hdue.below).1 hmem
      show fs'.isFile (target.down rel) = true ↔ _
      rw [hcleared.isFile_eq hfs hsteps hout]
      exact ⟨.file hdue hfile, fun htaken => htaken.of_file hfile⟩
  | true =>
      obtain ⟨-, -, hdir⟩ := (dir_mem_mirrorEntries_iff hfs hdue.below).1 hmem
      show fs'.readDir (target.down rel) = .ok [] ↔ _
      rw [readDir_eq_nil_iff hcleared.plain, hcleared.isDir_eq hfs hsteps hout, hcleared.locate,
        hplace]
      simp only [List.append_assoc, hgone]
      exact ⟨fun ⟨htarget, hemptied⟩ => .dir hdue hdir htarget hemptied,
        fun htaken => htaken.of_dir hdir⟩

/-- **One turn**: the counterpart goes if it is taken, and is counted then if it is a file. -/
theorem step (hfs : fs.Plain) (hdots : ".." ∉ target.steps)
    (h : fs.Swept refuse source target done fs') (hturn : TurnBack fs source done e)
    (todo : List MirrorEntry) (deleted : Nat) :
    ∃ fs'', SameEnd (ofEntries refuse source target (e :: todo) deleted fs')
        (ofEntries refuse source target todo
          (deleted + fs.takenFiles refuse source target [e]) fs'')
      ∧ fs.Swept refuse source target (done ++ [e]) fs'' := by
  have hplain : fs'.Plain := h.choose_spec.1.plain
  by_cases hskip : e.names = [] ∨ (source.down e.names).same (target.down e.names) = true
      ∨ refuse e.path.text = true
  · -- what is passed over is not due, and so not taken
    have hnot : ¬ fs.Taken refuse source target e.names := fun htaken => by
      rcases hskip with hroot | hsame | hrefused
      · exact htaken.due.below hroot
      · rw [htaken.due.other] at hsame
        cases hsame
      · rw [show refuse e.path.text = false from htaken.due.allowed] at hrefused
        cases hrefused
    rw [takenFiles_of_not_taken hnot]
    exact ⟨fs', MirrorDeletion.ofEntries_cons_skipped hskip todo deleted, h.kept hnot⟩
  · rw [not_or, not_or, Bool.not_eq_true, Bool.not_eq_true] at hskip
    obtain ⟨hne, hother, hallowed⟩ := hskip
    obtain ⟨hdir, hlist, -⟩ := (mem_mirrorEntries_iff hfs hne).1 hturn.mem
    have hdue : fs.Due refuse source target e.names := ⟨hne, hdir, hlist, hallowed, hother⟩
    have hiff := h.removable_iff hfs hdots hturn hdue
    by_cases htaken : fs.Taken refuse source target e.names
    · rw [takenFiles_of_taken htaken]
      have hparts := hturn.isPart hfs hne
      obtain ⟨above, name, hnames⟩ := (List.eq_nil_or_concat e.names).resolve_left hne
      rw [List.concat_eq_append] at hnames
      have hchild : target.down e.names = (target.down above).child name := by
        rw [hnames] at hparts ⊢
        exact target.down_concat (fun n hn => (hparts n (by simp [hn])).toIsSegment)
          (hparts name (by simp)).toIsSegment
      have hplace : fs'.locate (target.down e.names) = fs.locate target ++ e.names := by
        rw [locate_congr h.choose_spec.1.home, fs.locate_down target hparts]
      have hremovable := hiff.2 htaken
      rw [hchild] at hremovable hplace
      obtain ⟨fs'', hremove, hcleared⟩ := FileAction.removeCounterpart_of_removable hplain
        (hparts name (by rw [hnames]; simp)) hremovable
      rw [← hchild] at hremove
      rw [hplace] at hcleared
      exact ⟨fs'', MirrorDeletion.ofEntries_cons_sameEnd refuse hne hallowed hother hremove todo
        deleted, h.took htaken hcleared⟩
    · rw [takenFiles_of_not_taken htaken]
      refine ⟨fs', MirrorDeletion.ofEntries_cons_sameEnd refuse hne hallowed hother ?_ todo deleted,
        h.kept htaken⟩
      exact FileAction.removeCounterpart_of_not_removable hplain (mt hiff.1 htaken)

/-- **All turns**, one after the other. -/
theorem run (hfs : fs.Plain) (hdots : ".." ∉ target.steps)
    (hsplit : (fs.mirrorEntries source).1.reverse = done ++ todo)
    (h : fs.Swept refuse source target done fs') (deleted : Nat) :
    (ofEntries refuse source target todo deleted fs').outcome
        = .ok (deleted + fs.takenFiles refuse source target todo)
      ∧ fs.Swept refuse source target (done ++ todo)
          (ofEntries refuse source target todo deleted fs').files := by
  -- by induction on what is still to be gone through
  induction todo generalizing done deleted fs' with
  | nil =>
      rw [List.append_nil]
      exact ⟨rfl, h⟩
  | cons e todo ih =>
      obtain ⟨fs'', hend, hstep⟩ := h.step hfs hdots (turnBack_of_split hfs hsplit) todo deleted
      have hnext : done ++ e :: todo = (done ++ [e]) ++ todo := List.append_cons done e todo
      rw [hnext] at hsplit ⊢
      obtain ⟨houtcome, hfiles⟩ := ih hsplit hstep
        (deleted + fs.takenFiles refuse source target [e])
      rw [hend.1, hend.2, houtcome, takenFiles_cons e todo, Nat.add_assoc]
      exact ⟨rfl, hfiles⟩

theorem entry_of_not_taken (hfs : fs.Plain) (h : fs.Swept refuse source target done fs') {q : Place}
    (hq : ∀ rel, fs.Taken refuse source target rel → q ≠ fs.locate target ++ rel) :
    fs'.entryAt? q = fs.entryAt? q := by
  obtain ⟨tops, hcleared, htops⟩ := h
  by_cases hin : ∃ top ∈ tops, top <+: q
  · -- below what is taken nothing was but what is taken
    obtain ⟨top, htop, more, rfl⟩ := hin
    rw [hcleared.gone top htop more]
    obtain ⟨e, -, htaken, rfl⟩ := (htops top).1 htop
    rw [List.append_assoc] at hq ⊢
    refine (Decidable.byContradiction fun hne => ?_ : _ = none).symm
    exact hq _ (htaken.inside hfs hne) rfl
  · exact hcleared.rest q fun top htop hp => hin ⟨top, htop, hp⟩

end Swept

theorem mirrorDelete_swept (hfs : fs.Plain) (hdots : ".." ∉ target.steps) (refuse : String → Bool)
    (source : HostPath) :
    (fs.mirrorDelete refuse source target).outcome
        = .ok (fs.takenFiles refuse source target (fs.mirrorEntries source).1.reverse)
      ∧ fs.Swept refuse source target (fs.mirrorEntries source).1.reverse
          (fs.mirrorDelete refuse source target).files := by
  have hstart : fs.Swept refuse source target [] fs := .start hfs
  have hrun := hstart.run hfs hdots (List.nil_append _).symm 0
  rw [Nat.zero_add, List.nil_append] at hrun
  exact hrun

/-- **The deletion of a mirror takes exactly what is due.** It never fails, whatever the source is.
Files that are due are removed and counted, and directories that are due are removed if all that
was in them is. Everything else stands as it was. -/
theorem mirrorDelete_takes (hfs : fs.Plain) (hdots : ".." ∉ target.steps)
    (refuse : String → Bool) (source : HostPath) :
    ∃ n, (fs.mirrorDelete refuse source target).outcome = .ok n
      ∧ (n : ℕ∞) = {rel | rel ∈ fs.filesBelow (fs.locate source)
          ∧ fs.Taken refuse source target rel}.encard
      ∧ (∀ rel, fs.Taken refuse source target rel →
          (fs.mirrorDelete refuse source target).files.entryAt? (fs.locate target ++ rel) = none)
      ∧ (∀ q, (∀ rel, fs.Taken refuse source target rel → q ≠ fs.locate target ++ rel) →
          (fs.mirrorDelete refuse source target).files.entryAt? q = fs.entryAt? q)
      ∧ (fs.mirrorDelete refuse source target).files.home = fs.home := by
  obtain ⟨houtcome, hswept⟩ := mirrorDelete_swept hfs hdots refuse source
  refine ⟨_, houtcome, takenFiles_eq hfs, fun rel htaken => ?_,
    fun q hq => hswept.entry_of_not_taken hfs hq, hswept.choose_spec.1.home⟩
  obtain ⟨tops, hcleared, htops⟩ := hswept
  obtain ⟨isDir, hmem⟩ := htaken.mem_mirrorEntries hfs
  have htop := (htops _).2 ⟨_, List.mem_reverse.2 hmem, htaken, rfl⟩
  have hgone := hcleared.gone _ htop []
  rw [List.append_nil] at hgone
  exact hgone

/-! ### A folder and a mirror of it -/

/-- A disk with one file in a directory, and with a mirror of the directory in another place. -/
def mirroredFolder : FileSystem :=
  ((FileAction.folder.setDir ["t"]).setDir ["t", "d"]).setFile ["t", "d", "a"] ⟨#[50]⟩

theorem mirroredFolder_plain : mirroredFolder.Plain := by
  have htop : (FileAction.folder.setDir ([] ++ ["t"])).Plain :=
    FileAction.folder_plain.setDir rfl (by decide) rfl
  have hdir : ((FileAction.folder.setDir ["t"]).setDir (["t"] ++ ["d"])).Plain :=
    htop.setDir rfl (by decide) rfl
  have hfile : (((FileAction.folder.setDir ["t"]).setDir ["t", "d"]).setFile
      (["t", "d"] ++ ["a"]) ⟨#[50]⟩).Plain := hdir.setFile rfl (by decide) (fun h => by cases h) _
  exact hfile

theorem eq_of_mem_mirroredFolder {name : String}
    (h : mirroredFolder.entryAt? (["t"] ++ (["d"] ++ [name])) ≠ none) : name = "a" := by
  have hroot : mirroredFolder.root = .dir [("d", .dir [("a", .file ⟨#[49]⟩)]),
      ("t", .dir [("d", .dir [("a", .file ⟨#[50]⟩)])])] := rfl
  by_contra hname
  refine h ?_
  simp [entryAt?, hroot, Node.entryAt?_cons, Node.child?, Node.entries, lookup_entry_cons, hname]

/-- With the whole disk as the source, the deletion takes the file of the mirror, and with it the
directory that it leaves empty. The folder itself stays. -/
theorem mirroredFolder_cleared :
    mirroredFolder.Plain ∧ ".." ∉ HostPath.steps ⟨"/t"⟩
      ∧ mirroredFolder.Taken (fun _ => false) ⟨"/"⟩ ⟨"/t"⟩ ["d"]
      ∧ (∃ n, (mirroredFolder.mirrorDelete (fun _ => false) ⟨"/"⟩ ⟨"/t"⟩).outcome = .ok n)
      ∧ (mirroredFolder.mirrorDelete (fun _ => false) ⟨"/"⟩ ⟨"/t"⟩).files.entryAt? ["t", "d"]
          = none
      ∧ (mirroredFolder.mirrorDelete (fun _ => false) ⟨"/"⟩ ⟨"/t"⟩).files.entryAt? ["d", "a"]
          = some (.file ⟨#[49]⟩) := by
  have hsource : mirroredFolder.locate ⟨"/"⟩ = [] := by decide +kernel
  have htarget : mirroredFolder.locate ⟨"/t"⟩ = ["t"] := by decide +kernel
  have hdots : ".." ∉ HostPath.steps ⟨"/t"⟩ := by decide +kernel
  have hfile : mirroredFolder.Taken (fun _ => false) ⟨"/"⟩ ⟨"/t"⟩ ["d", "a"] := by
    refine .file ⟨by decide, by decide +kernel, by decide +kernel, rfl, by decide +kernel⟩ ?_
      (by decide +kernel)
    rw [hsource]
    exact ⟨⟨#[49]⟩, rfl⟩
  have hdir : mirroredFolder.Taken (fun _ => false) ⟨"/"⟩ ⟨"/t"⟩ ["d"] := by
    refine .dir ⟨by decide, by decide +kernel, by decide +kernel, rfl, by decide +kernel⟩ ?_
      (by decide +kernel) fun name hname => ?_
    · rw [hsource]
      rfl
    · rw [htarget] at hname
      exact eq_of_mem_mirroredFolder hname ▸ hfile
  obtain ⟨n, houtcome, -, hgone, hrest, -⟩ :=
    mirrorDelete_takes mirroredFolder_plain hdots (fun _ => false) ⟨"/"⟩
  rw [htarget] at hgone hrest
  refine ⟨mirroredFolder_plain, hdots, hdir, ⟨n, houtcome⟩, hgone ["d"] hdir, ?_⟩
  rw [hrest ["d", "a"] fun rel _ heq => absurd (List.cons.inj heq).1 (by decide)]
  rfl

theorem not_canList_rootDots : MirrorEntry.canList (HostPath.rootDots 2047) ["d"] = false := by
  have hnames : ∀ n ∈ ["d"], IsName n := by decide
  have hsegments : ∀ n ∈ ["d"], IsSegment n := fun n hn => (hnames n hn).toIsSegment
  have hrooted : ((HostPath.rootDots 2047).down ["d"]).isRooted = true := by
    rw [HostPath.isRooted_down _ hsegments, HostPath.isRooted_rootDots]
  have hwidth := HostPath.width_le_of_rootDots hrooted (HostPath.steps_down _ hsegments)
  have hlast : Text.width ["d"] = 2 := rfl
  rw [MirrorEntry.canList, List.isEmpty_cons, Bool.false_or, decide_eq_false_iff_not, Nat.not_lt]
  show pathLimit ≤ ((HostPath.rootDots 2047).down ["d"]).text.utf8ByteSize
  calc pathLimit = 2047 * 2 + 2 := rfl
    _ ≤ _ := hlast ▸ hwidth

/-- **What a walk does not meet stays.** The names of a source that is itself short enough can make
a path that is too long to be listed, and then the counterparts of what is in there are left. -/
theorem mirrorDelete_of_long_source_leaves :
    ¬ ∀ (fs : FileSystem) (source target : HostPath), fs.Plain → ".." ∉ source.steps →
      ".." ∉ target.steps → fs.isDir source = true → ∀ rel, rel ≠ [] →
      rel ∈ fs.filesBelow (fs.locate source) →
      (source.down rel).same (target.down rel) = false → fs.isFile (target.down rel) = true →
      (fs.mirrorDelete (fun _ => false) source target).files.entryAt? (fs.locate target ++ rel)
        = none := by
  intro hall
  have hsource := mirroredFolder.locate_rootDots 2047
  have htarget : mirroredFolder.locate ⟨"/t"⟩ = ["t"] := by decide +kernel
  have hdots : ".." ∉ HostPath.steps ⟨"/t"⟩ := by decide +kernel
  have hnames : ∀ n ∈ ["d", "a"], IsName n := by decide
  have hparts : ∀ n ∈ ["d", "a"], IsPart n := fun n hn => (hnames n hn).toIsPart
  have hgone := hall mirroredFolder (HostPath.rootDots 2047) ⟨"/t"⟩ mirroredFolder_plain
    (HostPath.dots_not_mem_rootDots 2047) hdots
    (isDir_rootDots mirroredFolder_plain rfl (by decide)) ["d", "a"]
    (by decide) (by rw [hsource]; exact ⟨⟨#[49]⟩, rfl⟩)
    (mirroredFolder.same_eq_false_of_ne (by
      rw [locate_down _ _ hparts, locate_down _ _ hparts, hsource, htarget]
      decide))
    (by decide +kernel)
  obtain ⟨-, hswept⟩ := mirrorDelete_swept mirroredFolder_plain hdots (fun _ => false)
    (HostPath.rootDots 2047)
  rw [hswept.entry_of_not_taken mirroredFolder_plain ?_, htarget] at hgone
  · cases hgone
  · intro rel htaken heq
    rw [List.append_cancel_left_eq] at heq
    have hlisted : MirrorEntry.canList (HostPath.rootDots 2047) ["d"] = true := by
      have hlisted := htaken.due.listed
      rw [← heq] at hlisted
      exact hlisted
    rw [not_canList_rootDots] at hlisted
    cases hlisted

end FileSystem

end PackageScript
