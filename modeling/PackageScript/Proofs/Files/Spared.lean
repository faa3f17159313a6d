import PackageScript.Proofs.Command.FileEffects
import PackageScript.Proofs.Files.Inventory
import PackageScript.Proofs.Files.Move

set_option autoImplicit false

/-! # Files that a change spares

A change spares the files outside some places if each of them is still there, with its bytes
(`FileSystem.Spares`). Writing and taking away are both such changes, each with the places that it
is confined to, so that an action that does both is bounded step by step. Removing counterparts
reaches no file but those at the places for which leave was given
(`MirrorDeletion.ofEntries_spares`).
-/

namespace PackageScript

namespace FileSystem

variable {fs fs' fs'' : FileSystem} {W W' : Place → Prop}

/-- **A change that takes away and writes over no file but those in given places.** -/
structure Spares (W : Place → Prop) (fs fs' : FileSystem) : Prop where
  plain : fs'.Plain
  home : fs'.home = fs.home
  file : ∀ q b, ¬ W q → fs.entryAt? q = some (.file b) → fs'.entryAt? q = some (.file b)

namespace Spares

theorem refl (hfs : fs.Plain) : Spares W fs fs := ⟨hfs, rfl, fun _ _ _ h => h⟩

theorem trans (h : Spares W fs fs') (h' : Spares W fs' fs'') : Spares W fs fs'' :=
  ⟨h'.plain, h'.home.trans h.home, fun q b hq hb => h'.file q b hq (h.file q b hq hb)⟩

theorem mono (h : Spares W fs fs') (hW : ∀ q, W q → W' q) : Spares W' fs fs' :=
  ⟨h.plain, h.home, fun q b hq hb => h.file q b (fun hw => hq (hW q hw)) hb⟩

theorem locate (h : Spares W fs fs') (p : HostPath) : fs'.locate p = fs.locate p :=
  locate_congr h.home p

end Spares

theorem Overlay.spares (h : Overlay W fs fs') : Spares W fs fs' :=
  ⟨h.plain, h.home, fun _ _ hq hb => (h.file_iff hq).2 hb⟩

theorem Prunes.spares {top : Place} (h : Prunes top fs fs') : Spares (top <+: ·) fs fs' :=
  ⟨h.plain, h.home, fun q b hq hb => by rw [h.entry_of_not_below hq, hb]⟩

/-- The inventory of a path tells names that a directory can hold. -/
theorem isName_of_mem_mirrorEntries (hfs : fs.Plain) {root : HostPath} {e : MirrorEntry}
    (he : e ∈ (fs.mirrorEntries root).1) : ∀ n ∈ e.names, IsName n := by
  rw [mirrorEntries] at he
  cases hstat : fs.lstat root with
  | error err =>
      rw [hstat] at he
      cases he
  | ok found =>
      obtain ⟨place, node⟩ := found
      obtain ⟨-, -, hnode, -⟩ := (stat_eq_ok_iff hfs).1 ((lstat_eq_ok_iff hfs).1 hstat)
      -- a walk tells no more than the inventory of what it starts from
      have hinventory : e ∈ node.inventory := by
        rw [hstat] at he
        cases node with
        | dir es => exact (List.mem_filter.1 he).1
        | file b => exact (List.mem_filter.1 he).1
        | link t =>
            have hlink : fs.entryAt? place = some (.link t) := by
              rw [entryAt?_eq_map, hnode]
              rfl
            exact absurd hlink (hfs.no_link place t)
      exact hfs.isName_of_below ((lists_inventory hfs hnode).ne_none hinventory)

end FileSystem

namespace FileSystem

/-- **The places where a move puts files**: where a file lands, and where the copies of the files
in a directory go. If one of these copies goes to a place in the directory itself, it may be copied
in its turn, and then nothing at or below the new place is sure to be left alone. -/
def Landed (fs : FileSystem) (src dst : HostPath) (q : Place) : Prop :=
  if fs.isDir src then
    fs.copiesOf (fs.locate src) (fs.locate dst) q
      ∨ ¬ fs.Apart (fs.locate src) (fs.locate dst) (fs.locate src) ∧ fs.locate dst <+: q
  else q = fs.locate (fs.moveTarget src dst)

/-- The places that a move may change: those of what it moves, and those where it lands. -/
def Moved (fs : FileSystem) (src dst : HostPath) (q : Place) : Prop :=
  fs.locate src <+: q ∨ fs.Landed src dst q

end FileSystem

namespace FileAction

open FileSystem (Spares Overlay)

variable {fs : FileSystem}

/-! ## Moving -/

theorem rename_spares (hfs : fs.Plain) (old new : HostPath) {W : Place → Prop}
    (hold : W (fs.locate old)) (hnew : W (fs.locate new)) :
    Ends (rename old new) fs (fun _ fs' => Spares W fs fs') (fun _ fs' => Spares W fs fs') := by
  refine (rename_ends hfs old new).mono ?_ ?_
  · rintro _ _ ⟨holds, hnews, hnot, b, hb, ⟨-, rfl⟩ | ⟨hne, rfl⟩⟩
    · exact .refl hfs
    · have hslot := holds.slot hfs (by rw [hb]; simp)
      have herase : Overlay W fs (fs.erase (fs.locate old)) := .eraseFile hfs hslot hb hold
      have hnot' : (fs.erase (fs.locate old)).entryAt? (fs.locate new) ≠ some .dir := by
        rw [FileSystem.entryAt?_erase hslot]
        split
        · simp
        · exact hnot
      exact (herase.trans (.setFile herase.plain ((hnews.slot hfs hnot).mono herase.dirs)
        hnot' hnew b)).spares
  · rintro _ _ rfl
    exact .refl hfs

theorem clearTarget_spares (hfs : fs.Plain) (target : HostPath) {W : Place → Prop}
    (htarget : W (fs.locate target)) :
    Ends (clearTarget target) fs (fun _ fs' => Spares W fs fs') (fun _ fs' => Spares W fs fs') := by
  refine (clearTarget_ends hfs target).mono ?_ ?_
  · rintro _ _ rfl
    by_cases hfile : fs.isFile target = true
    · rw [if_pos hfile]
      obtain ⟨hleads, -, b, hb⟩ := (FileSystem.isFile_iff hfs).1 hfile
      exact (Overlay.eraseFile hfs (hleads.slot hfs (by rw [hb]; simp)) hb htarget).spares
    · rw [if_neg hfile]
      exact .refl hfs
  · rintro _ _ rfl
    exact .refl hfs

theorem clearAndRename_spares (hfs : fs.Plain) (src target : HostPath) {W : Place → Prop}
    (hsrc : W (fs.locate src)) (htarget : W (fs.locate target)) :
    Ends (do clearTarget target; ensureParent target; rename src target) fs
      (fun _ fs' => Spares W fs fs') (fun _ fs' => Spares W fs fs') := by
  refine Ends.bind ((clearTarget_spares hfs target htarget).mono (fun _ fs1 h1 => ?_)
    fun _ _ h => h)
  refine Ends.bind ((ensureParent_ends h1.plain target).mono (fun _ fs2 h2 => ?_)
    fun _ _ h2 => h1.trans h2.overlay.spares)
  have h12 : Spares W fs fs2 := h1.trans h2.overlay.spares
  have hgo := rename_spares h12.plain src target (W := W) (by rw [h12.locate]; exact hsrc)
    (by rw [h12.locate]; exact htarget)
  exact hgo.mono (fun _ _ h => h12.trans h) fun _ _ h => h12.trans h

theorem moveFile_spares (hfs : fs.Plain) (src dst : HostPath) (hsrc : fs.isDir src = false) :
    Ends (moveEntry src dst) fs (fun _ fs' => Spares (fs.Moved src dst) fs fs')
      (fun _ fs' => Spares (fs.Moved src dst) fs fs') := by
  rw [moveEntry]
  refine Ends.bind (ends_ask (fun found hfound => ?_) fun _ _ => .refl hfs)
  obtain ⟨place, source⟩ := found
  have hparent := ensureParent_ends hfs dst
  cases hrun : ensureParent dst fs with
  | error e fs1 =>
      exact Ends.bind (ends_of_error hrun (hparent.of_error hrun).overlay.spares)
  | ok _ fs1 =>
      have hgrows := hparent.of_ok hrun
      have htarget : fs.Moved src dst (fs1.locate (fs1.landing src dst)) := by
        right
        rw [FileSystem.Landed, if_neg (by simp [hsrc]), FileSystem.moveTarget,
          if_neg (by simp [hsrc]), FileSystem.withParent, hrun, hgrows.locate]
      have hself : fs.Moved src dst (fs1.locate src) := by
        left
        rw [hgrows.locate]
      have hgo := clearAndRename_spares hgrows.plain src (fs1.landing src dst) hself htarget
      refine Ends.bind (ends_of_ok hrun ?_)
      cases source with
      | dir es =>
          -- what was found is no directory
          rw [FileSystem.isDir, hfound] at hsrc
          cases hsrc
      | file b =>
          exact Ends.bind (ends_look (hgo.mono (fun _ _ h => hgrows.overlay.spares.trans h)
            fun _ _ h => hgrows.overlay.spares.trans h))
      | link t =>
          exact Ends.bind (ends_look (hgo.mono (fun _ _ h => hgrows.overlay.spares.trans h)
            fun _ _ h => hgrows.overlay.spares.trans h))

/-- The copying of a directory that is moved writes where the move puts files. -/
theorem copyTree_landed (src dst : HostPath) (hdir : fs.isDir src = true)
    {fs1 : FileSystem} (h1 : FileSystem.Grows fs fs1) :
    Ends (copyTree src dst) fs1 (fun _ fs2 => Overlay (fs.Moved src dst) fs1 fs2)
      (fun _ fs2 => Overlay (fs.Moved src dst) fs1 fs2) := by
  have hcopies : fs1.copiesOf (fs1.locate src) (fs1.locate dst)
      = fs.copiesOf (fs.locate src) (fs.locate dst) := by
    rw [h1.locate, h1.locate]
    exact FileSystem.copiesOf_congr fun _ _ => h1.file_iff
  by_cases hapart : fs.Apart (fs.locate src) (fs.locate dst) (fs.locate src)
  · have hgo := copyTreeTo_copies pathLimit fs1 src dst h1.plain (by
      intro q hq
      rw [hcopies] at hq
      rw [h1.locate]
      exact hapart q hq)
    rw [hcopies] at hgo
    have hlanded : ∀ q, fs.copiesOf (fs.locate src) (fs.locate dst) q → fs.Moved src dst q := by
      intro q hq
      right
      rw [FileSystem.Landed, if_pos hdir]
      exact Or.inl hq
    exact hgo.mono (fun _ _ h => h.1.mono hlanded) fun _ _ h => h.mono hlanded
  · have hgo := copyTreeTo_below pathLimit h1.plain src dst
    rw [h1.locate] at hgo
    have hlanded : ∀ q, fs.locate dst <+: q → fs.Moved src dst q := by
      intro q hq
      right
      rw [FileSystem.Landed, if_pos hdir]
      exact Or.inr ⟨hapart, hq⟩
    exact hgo.mono (fun _ _ h => h.mono hlanded) fun _ _ h => h.mono hlanded

/-- **A move takes away or writes over no file but those that it moves and those that stand where
they land**, however it ends. -/
theorem moveEntry_spares (hfs : fs.Plain) (src dst : HostPath) :
    Ends (moveEntry src dst) fs (fun _ fs' => Spares (fs.Moved src dst) fs fs')
      (fun _ fs' => Spares (fs.Moved src dst) fs fs') := by
  by_cases hdir : fs.isDir src = true
  · refine moveDir_ends hfs src dst hdir (fun _ h1 => h1.overlay.spares) fun fs1 h1 => ?_
    refine (copyTree_landed src dst hdir h1).mono (fun _ fs2 h2 => ?_)
      fun _ _ h2 => (h1.overlay.trans h2).spares
    have h12 := h1.overlay.trans h2
    have hdelete := deleteTreeTo_ends pathLimit src h12.plain
    rw [h12.locate] at hdelete
    exact hdelete.mono
      (fun _ _ h => h12.spares.trans (h.1.spares.mono fun _ => Or.inl))
      fun _ _ h => h12.spares.trans (h.spares.mono fun _ => Or.inl)
  · exact moveFile_spares hfs src dst (Bool.not_eq_true _ ▸ hdir)

/-! ## Removing counterparts -/

theorem removeFile_spares (hfs : fs.Plain) (p : HostPath) :
    Ends (removeFile p) fs (fun _ fs' => Spares (Eq (fs.locate p)) fs fs')
      (fun _ fs' => Spares (Eq (fs.locate p)) fs fs') := by
  refine (removeFile_ends hfs p).mono ?_ ?_
  · rintro _ _ ⟨hfile, rfl⟩
    obtain ⟨hleads, -, b, hb⟩ := (FileSystem.isFile_iff hfs).1 hfile
    exact (Overlay.eraseFile hfs (hleads.slot hfs (by rw [hb]; simp)) hb rfl).spares
  · rintro _ _ rfl
    exact .refl hfs

/-- An empty directory goes without taking a file along. -/
theorem removeDir_spares (hfs : fs.Plain) {p : HostPath} (hempty : fs.readDir p = .ok [])
    (W : Place → Prop) :
    Ends (removeDir p) fs (fun _ fs' => Spares W fs fs') (fun _ fs' => Spares W fs fs') := by
  refine (removeDir_ends hfs p).mono ?_ ?_
  · rintro _ _ ⟨hslot, hdir, rfl⟩
    refine ⟨(FileSystem.Prunes.erase hfs hslot).plain, rfl, fun q b _ hb => ?_⟩
    rw [FileSystem.entryAt?_erase hslot, if_neg, hb]
    rintro ⟨below, rfl⟩
    cases below with
    | nil =>
        rw [List.append_nil, hdir] at hb
        cases hb
    | cons name rest =>
        -- what stands first on the way to the file would have been listed
        have hname : fs.entryAt? (fs.locate p ++ [name]) ≠ none := by
          cases rest with
          | nil => rw [hb]; simp
          | cons next rest =>
              rw [List.append_cons] at hb
              rw [FileSystem.dir_of_below (by rw [hb]; simp)]
              simp
        obtain ⟨e, he⟩ := Option.ne_none_iff_exists'.1 hname
        cases (FileSystem.mem_readDir hfs hempty).2 he
  · rintro _ _ rfl
    exact .refl hfs

/-- **Removing a counterpart takes no other file**, and with a directory none at all. -/
theorem removeCounterpart_spares (hfs : fs.Plain) (isDir : Bool) (p : HostPath) :
    Ends (removeCounterpart isDir p) fs (fun _ fs' => Spares (Eq (fs.locate p)) fs fs')
      (fun _ fs' => Spares (Eq (fs.locate p)) fs fs') := by
  have hstay : Ends (pure 0 : FileAction Nat) fs (fun _ fs' => Spares (Eq (fs.locate p)) fs fs')
      (fun _ fs' => Spares (Eq (fs.locate p)) fs fs') := Spares.refl hfs
  rw [removeCounterpart]
  cases isDir with
  | true =>
      rw [if_pos rfl]
      refine Ends.bind (ends_look ?_)
      split
      · refine Ends.bind (ends_ask (fun listing hlist => ?_) fun _ _ => .refl hfs)
        cases listing with
        | nil =>
            exact Ends.bind ((removeDir_spares hfs hlist _).mono (fun _ _ h => h) fun _ _ h => h)
        | cons e rest => exact hstay
      · exact hstay
  | false =>
      rw [if_neg (by simp)]
      refine Ends.bind (ends_look ?_)
      split
      · exact Ends.bind ((removeFile_spares hfs p).mono (fun _ _ h => h) fun _ _ h => h)
      · exact hstay

end FileAction

namespace MirrorDeletion

open FileSystem (Spares)

/-- **The places of the counterparts that leave was given to remove.** -/
def Granted (refuse : String → Bool) (top : Place) (entries : List MirrorEntry) : Place → Prop :=
  fun q => ∃ e ∈ entries, refuse e.path.text = false ∧ q = top ++ e.names

/-- **Removing counterparts takes no file but those that leave was given for**, however it
ends. -/
theorem ofEntries_spares {refuse : String → Bool} {source target : HostPath}
    {entries : List MirrorEntry} (hnames : ∀ e ∈ entries, ∀ n ∈ e.names, IsPart n)
    {fs : FileSystem} (hfs : fs.Plain) (deleted : Nat) :
    Spares (Granted refuse (fs.locate target) entries) fs
      (ofEntries refuse source target entries deleted fs).files := by
  induction entries generalizing fs deleted with
  | nil => exact Spares.refl hfs
  | cons e rest ih =>
      have hrest : ∀ {fs1 : FileSystem}, fs1.Plain → ∀ n,
          Spares (Granted refuse (fs1.locate target) (e :: rest)) fs1
            (ofEntries refuse source target rest n fs1).files := fun h1 n =>
        (ih (fun e' he' => hnames e' (List.mem_cons_of_mem _ he')) h1 n).mono
          fun q ⟨e', he', hq⟩ => ⟨e', List.mem_cons_of_mem _ he', hq⟩
      rw [ofEntries]
      by_cases hskip : (e.names.isEmpty || (source.join e.path).same (target.join e.path)) = true
      · rw [if_pos hskip]
        exact hrest hfs deleted
      rw [if_neg hskip]
      by_cases hrefused : refuse e.path.text = true
      · rw [if_pos hrefused]
        exact hrest hfs deleted
      rw [if_neg hrefused]
      have hplace : fs.locate (target.join e.path) = fs.locate target ++ e.names :=
        fs.locate_down target (hnames e List.mem_cons_self)
      have hone := FileAction.removeCounterpart_spares hfs e.isDir (target.join e.path)
      have hgranted : ∀ q, fs.locate (target.join e.path) = q →
          Granted refuse (fs.locate target) (e :: rest) q := by
        rintro q rfl
        exact ⟨e, List.mem_cons_self, Bool.not_eq_true _ ▸ hrefused, hplace⟩
      cases hrun : FileAction.removeCounterpart e.isDir (target.join e.path) fs with
      | error err fs1 => exact (hone.of_error hrun).mono hgranted
      | ok n fs1 =>
          have h1 := (hone.of_ok hrun).mono hgranted
          have h2 := hrest h1.plain (deleted + n)
          rw [h1.locate] at h2
          exact h1.trans h2

end MirrorDeletion

end PackageScript
