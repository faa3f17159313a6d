import PackageScript.Proofs.Command.FileEffects
import PackageScript.Proofs.Files.Below
import PackageScript.Proofs.Files.Delete
import PackageScript.Proofs.Files.Expand

set_option autoImplicit false

/-! # Deletions that succeed

A deletion stops where a path is too long to be opened. If everything in a tree is within reach of
its path (`FileSystem.InReach`), nothing else stops it: the deletion of the tree returns
(`FileAction.deleteTreeTo_returns`), and afterwards the tree is gone and everything else is as it
was (`FileSystem.Cleared`). The paths must not lead up, since a name with `..` behind it does not
lead on once it is deleted.
-/

namespace PackageScript

namespace FileSystem

variable {fs fs' fs'' : FileSystem} {p : HostPath} {name : String} {tops tops' : List Place}

/-! ## Trees within reach -/

/-- **Everything at and below a path has a path that is short enough to be opened.** -/
def InReach (fs : FileSystem) (p : HostPath) : Prop :=
  ∀ below, fs.entryAt? (fs.locate p ++ below) ≠ none →
    (below.foldl HostPath.child p).text.utf8ByteSize < pathLimit

theorem InReach.child (h : fs.InReach p) (hname : IsPart name) : fs.InReach (p.child name) := by
  intro below hne
  rw [fs.locate_child p hname, List.append_assoc, List.singleton_append] at hne
  exact h (name :: below) hne

/-- A directory is within reach with all that is in it. -/
theorem InReach.of_children (hfs : fs.Named) (hshort : p.text.utf8ByteSize < pathLimit)
    (h : ∀ n, fs.entryAt? (fs.locate p ++ [n]) ≠ none → fs.InReach (p.child n)) :
    fs.InReach p := by
  rintro (_ | ⟨n, below⟩) hne
  · exact hshort
  · have hthere : fs.entryAt? (fs.locate p ++ [n]) ≠ none := by
      intro hnone
      rw [List.append_cons] at hne
      exact hne (entryAt?_below_none hnone below)
    refine h n hthere below ?_
    rw [fs.locate_child p (hfs _ n hthere).toIsPart, List.append_assoc,
      List.singleton_append]
    exact hne

theorem leads_child (hfs : fs.Plain) (hdir : fs.isDir p = true) (hname : IsName name)
    (hshort : (p.child name).text.utf8ByteSize < pathLimit) : fs.Leads (p.child name) := by
  obtain ⟨hleads, hentry⟩ := (isDir_iff hfs).1 hdir
  have hdown : p.down [name] = p.child name := by
    rw [HostPath.down, String.intercalate_singleton]
    rfl
  rw [← hdown] at hshort ⊢
  refine hleads.down (fun n hn => ?_) hentry (fun _ => ?_) hshort
  · rw [List.mem_singleton.1 hn]
    exact hname
  · rw [List.dropLast_singleton, List.append_nil]
    exact hentry

theorem exists?_child (hfs : fs.Plain) (hdir : fs.isDir p = true)
    (hshort : (p.child name).text.utf8ByteSize < pathLimit)
    (hthere : fs.entryAt? (fs.locate p ++ [name]) ≠ none) : fs.exists? (p.child name) = true := by
  have hname := hfs.isName (fs.locate p) name hthere
  refine (exists?_iff hfs).2 ⟨leads_child hfs hdir hname hshort, ?_, fun hslash => ?_⟩
  · rw [fs.locate_child p hname.toIsPart]
    exact hthere
  · rw [HostPath.endsWithSlash_child p hname.toIsSegment] at hslash
    cases hslash

/-! ## What is left of a tree -/

/-- **Some places have been deleted and nothing else.** -/
structure Cleared (tops : List Place) (fs fs' : FileSystem) : Prop where
  plain : fs'.Plain
  home : fs'.home = fs.home
  gone : ∀ top ∈ tops, ∀ below, fs'.entryAt? (top ++ below) = none
  rest : ∀ q, (∀ top ∈ tops, ¬ top <+: q) → fs'.entryAt? q = fs.entryAt? q

namespace Cleared

theorem nil (hfs : fs.Plain) : Cleared [] fs fs :=
  ⟨hfs, rfl, fun _ h => (by cases h), fun _ _ => rfl⟩

theorem of_prunes {top : Place} (h : Prunes top fs fs') (hgone : fs'.entryAt? top = none) :
    Cleared [top] fs fs' := by
  refine ⟨h.plain, h.home, fun t ht below => ?_, fun q hq => ?_⟩
  · rw [List.mem_singleton.1 ht]
    exact entryAt?_below_none hgone below
  · exact h.entry_of_not_below (hq top (List.mem_singleton_self top))

theorem append (h : Cleared tops fs fs') (h' : Cleared tops' fs' fs'') :
    Cleared (tops ++ tops') fs fs'' := by
  refine ⟨h'.plain, h'.home.trans h.home, fun t ht below => ?_, fun q hq => ?_⟩
  · rcases List.mem_append.1 ht with ht | ht
    · -- a place that was emptied first is not filled again
      by_cases hlater : ∃ u ∈ tops', u <+: t ++ below
      · obtain ⟨u, hu, more, hmore⟩ := hlater
        rw [← hmore]
        exact h'.gone u hu more
      · rw [h'.rest _ fun u hu hp => hlater ⟨u, hu, hp⟩]
        exact h.gone t ht below
    · exact h'.gone t ht below
  · rw [h'.rest q fun u hu => hq u (List.mem_append_right _ hu)]
    exact h.rest q fun u hu => hq u (List.mem_append_left _ hu)

theorem cons {top : Place} (h : Cleared [top] fs fs') (h' : Cleared tops fs' fs'') :
    Cleared (top :: tops) fs fs'' := h.append h'

theorem locate (h : Cleared tops fs fs') (p : HostPath) : fs'.locate p = fs.locate p :=
  locate_congr h.home p

/-- What a path leads through is still there if it does not lie in what was cleared. -/
theorem leads (h : Cleared tops fs fs') (hdots : ".." ∉ p.steps)
    (hout : ∀ top ∈ tops, ¬ top <+: fs.locate p) (hp : fs.Leads p) : fs'.Leads p := by
  have hkeep : ∀ above, above <+: fs.locate p → fs'.entryAt? above = fs.entryAt? above :=
    fun above habove => h.rest above fun top htop hp => hout top htop (hp.trans habove)
  have hplace := Place.foldl_step_of_dots_not_mem hdots (fs.origin p)
  refine ⟨hp.usable, ?_, ?_⟩
  · rw [origin_congr h.home, hkeep _ ?_]
    · exact hp.origin_dir
    · rw [FileSystem.locate, hplace]
      exact List.prefix_append _ _
  · rw [origin_congr h.home]
    have hwalk := hp.walkable
    rw [FileSystem.locate] at hkeep
    generalize fs.origin p = place at hwalk hkeep
    clear hplace
    generalize p.steps = names at hwalk hkeep hdots
    -- each name leads to a place above the last one, or to the last one
    induction names generalizing place with
    | nil => trivial
    | cons n rest ih =>
        obtain ⟨hn, hrest⟩ := List.ne_and_not_mem_of_not_mem_cons hdots
        rw [List.foldl_cons, Place.step] at hkeep
        unfold Walkable at hwalk ⊢
        by_cases hdot : n = "."
        · rw [if_pos hdot] at hwalk hkeep ⊢
          exact ih place hwalk hkeep hrest
        · rw [if_neg hdot, if_neg (Ne.symm hn)] at hwalk hkeep ⊢
          refine ⟨hwalk.1, hwalk.2.imp id fun hnext => ⟨?_, ih _ hnext.2 hkeep hrest⟩⟩
          rw [hkeep _ ?_]
          · exact hnext.1
          · rw [Place.foldl_step_of_dots_not_mem hrest]
            exact List.prefix_append _ _

theorem leads_iff (h : Cleared tops fs fs') (hdots : ".." ∉ p.steps)
    (hout : ∀ top ∈ tops, ¬ top <+: fs.locate p) : fs'.Leads p ↔ fs.Leads p := by
  refine ⟨Leads.mono h.home.symm fun q hq => ?_, h.leads hdots hout⟩
  -- a directory that is left was there before
  by_cases hin : ∃ top ∈ tops, top <+: q
  · obtain ⟨top, htop, more, rfl⟩ := hin
    rw [h.gone top htop] at hq
    cases hq
  · rw [← h.rest q fun top htop hp => hin ⟨top, htop, hp⟩]
    exact hq

theorem isDir_eq (h : Cleared tops fs fs') (hfs : fs.Plain) (hdots : ".." ∉ p.steps)
    (hout : ∀ top ∈ tops, ¬ top <+: fs.locate p) : fs'.isDir p = fs.isDir p := by
  rw [Bool.eq_iff_iff, FileSystem.isDir_iff h.plain, FileSystem.isDir_iff hfs,
    h.leads_iff hdots hout, h.locate, h.rest _ hout]

theorem isFile_eq (h : Cleared tops fs fs') (hfs : fs.Plain) (hdots : ".." ∉ p.steps)
    (hout : ∀ top ∈ tops, ¬ top <+: fs.locate p) : fs'.isFile p = fs.isFile p := by
  rw [Bool.eq_iff_iff, FileSystem.isFile_iff h.plain, FileSystem.isFile_iff hfs,
    h.leads_iff hdots hout, h.locate, h.rest _ hout]

theorem exists?_iff (h : Cleared tops fs fs') (hfs : fs.Plain) (hdots : ".." ∉ p.steps)
    (hout : ∀ top ∈ tops, ¬ top <+: fs.locate p) (hp : fs.exists? p = true) :
    fs'.exists? p = true := by
  obtain ⟨hleads, hne, hslash⟩ := (FileSystem.exists?_iff hfs).1 hp
  refine (FileSystem.exists?_iff h.plain).2 ⟨h.leads hdots hout hleads, ?_, ?_⟩
  · rw [h.locate, h.rest _ hout]
    exact hne
  · rw [h.locate, h.rest _ hout]
    exact hslash

theorem inReach (h : Cleared tops fs fs') (hp : fs.InReach p) : fs'.InReach p := by
  intro below hne
  rw [h.locate] at hne
  refine hp below ?_
  by_cases hin : ∃ top ∈ tops, top <+: fs.locate p ++ below
  · obtain ⟨top, htop, more, hmore⟩ := hin
    rw [← hmore, h.gone top htop] at hne
    exact absurd rfl hne
  · rw [h.rest _ fun top htop hp => hin ⟨top, htop, hp⟩] at hne
    exact hne

end Cleared

end FileSystem

namespace FileAction

open FileSystem (InReach Cleared Prunes)
open Setting (forEach)

variable {fs : FileSystem} {p dir : HostPath} {name : String}

theorem deleteEntries_eq_forEach (delete : HostPath → FileAction Unit) (dir : HostPath)
    (entries : List (String × Entry)) :
    deleteEntries delete dir entries = forEach delete (entries.map fun e => dir.child e.1) := by
  induction entries with
  | nil => rfl
  | cons e rest ih => rw [deleteEntries, ih, List.map_cons, forEach]

/-- **Entries of a directory are deleted one after the other.** If the deletion of each single one
is sure to succeed, all of them go, and nothing else. -/
theorem forEach_children_returns {delete : HostPath → FileAction Unit} (hdots : ".." ∉ dir.steps)
    (hdelete : ∀ (fs : FileSystem) (name : String), fs.Plain → IsName name →
      fs.exists? (dir.child name) = true → fs.InReach (dir.child name) →
      ∃ fs', delete (dir.child name) fs = .ok () fs'
        ∧ Cleared [fs.locate (dir.child name)] fs fs')
    {names : List String} (hnodup : names.Nodup) (hnames : ∀ n ∈ names, IsName n)
    (hfs : fs.Plain) (hthere : ∀ n ∈ names, fs.exists? (dir.child n) = true)
    (hreach : ∀ n ∈ names, fs.InReach (dir.child n)) :
    ∃ fs', forEach delete (names.map dir.child) fs = .ok () fs'
      ∧ Cleared (names.map fun n => fs.locate dir ++ [n]) fs fs' := by
  induction names generalizing fs with
  | nil => exact ⟨fs, rfl, .nil hfs⟩
  | cons n rest ih =>
      rw [List.nodup_cons] at hnodup
      have hplace : ∀ m ∈ n :: rest, fs.locate (dir.child m) = fs.locate dir ++ [m] :=
        fun m hm => fs.locate_child dir (hnames m hm).toIsPart
      obtain ⟨fs1, hrun, h1⟩ := hdelete fs n hfs (hnames n List.mem_cons_self)
        (hthere n List.mem_cons_self) (hreach n List.mem_cons_self)
      rw [hplace n List.mem_cons_self] at h1
      -- the other entries have other names, and are not below the first one
      have hout : ∀ m ∈ rest, ∀ top ∈ [fs.locate dir ++ [n]],
          ¬ top <+: fs.locate (dir.child m) := by
        intro m hm top htop hp
        rw [List.mem_singleton.1 htop, hplace m (List.mem_cons_of_mem _ hm),
          List.prefix_append_right_inj, List.cons_prefix_cons] at hp
        exact hnodup.1 (hp.1 ▸ hm)
      obtain ⟨fs2, hrun', h2⟩ := ih hnodup.2 (fun m hm => hnames m (List.mem_cons_of_mem _ hm))
        h1.plain
        (fun m hm => h1.exists?_iff hfs
          (HostPath.dots_not_mem_steps_child hdots
            (hnames m (List.mem_cons_of_mem _ hm)).toIsPart)
          (hout m hm) (hthere m (List.mem_cons_of_mem _ hm)))
        fun m hm => h1.inReach (hreach m (List.mem_cons_of_mem _ hm))
      rw [h1.locate] at h2
      exact ⟨fs2, bind_eq_ok_iff.2 ⟨(), fs1, hrun, hrun'⟩, h1.cons h2⟩

/-- The entries of a directory within reach are deleted, if the deletion of each is sure to
succeed. -/
theorem deleteEntries_returns {delete : HostPath → FileAction Unit} (hdots : ".." ∉ p.steps)
    (hdelete : ∀ (fs : FileSystem) (name : String), fs.Plain → IsName name →
      fs.exists? (p.child name) = true → fs.InReach (p.child name) →
      ∃ fs', delete (p.child name) fs = .ok () fs'
        ∧ Cleared [fs.locate (p.child name)] fs fs')
    (hfs : fs.Plain) (hdir : fs.isDir p = true) (hreach : fs.InReach p)
    {listing : List (String × Entry)} (hlist : fs.readDir p = .ok listing) :
    ∃ fs', deleteEntries delete p listing fs = .ok () fs'
      ∧ Cleared ((listing.map Prod.fst).map fun n => fs.locate p ++ [n]) fs fs'
      ∧ ∀ n, fs'.entryAt? (fs.locate p ++ [n]) = none := by
  have hthere : ∀ n ∈ listing.map Prod.fst, fs.entryAt? (fs.locate p ++ [n]) ≠ none := by
    intro n hn
    obtain ⟨e, he, rfl⟩ := List.mem_map.1 hn
    rw [(FileSystem.mem_readDir hfs hlist).1 he]
    simp
  have hnames : ∀ n ∈ listing.map Prod.fst, IsName n := fun n hn =>
    hfs.isName (fs.locate p) n (hthere n hn)
  obtain ⟨fs', hrun, hcleared⟩ := forEach_children_returns hdots hdelete
    (FileSystem.nodup_readDir hfs hlist) hnames hfs
    (fun n hn => FileSystem.exists?_child hfs hdir (hreach [n] (hthere n hn)) (hthere n hn))
    fun n hn => hreach.child (hnames n hn).toIsPart
  refine ⟨fs', ?_, hcleared, fun n => ?_⟩
  · rw [deleteEntries_eq_forEach, ← hrun, List.map_map]
    rfl
  · -- a name that is not listed had nothing under it
    by_cases hn : n ∈ listing.map Prod.fst
    · have hgone := hcleared.gone _ (List.mem_map_of_mem hn) []
      rw [List.append_nil] at hgone
      exact hgone
    · rw [hcleared.rest]
      · apply Decidable.byContradiction
        intro hne
        obtain ⟨e, he⟩ := Option.ne_none_iff_exists'.1 hne
        exact hn (List.mem_map.2 ⟨(n, e), (FileSystem.mem_readDir hfs hlist).2 he, rfl⟩)
      · intro top htop hp
        obtain ⟨m, hm, rfl⟩ := List.mem_map.1 htop
        rw [List.prefix_append_right_inj, List.cons_prefix_cons] at hp
        exact hn (hp.1 ▸ hm)

/-- **The deletion of a tree within reach succeeds**, and takes the tree and nothing else. -/
theorem deleteTreeTo_returns (depth : Nat) (hdots : ".." ∉ dir.steps) (hfs : fs.Plain)
    (hname : IsName name) (hthere : fs.exists? (dir.child name) = true)
    (hreach : fs.InReach (dir.child name))
    (hdepth : pathLimit ≤ depth + (dir.child name).text.utf8ByteSize) :
    ∃ fs', deleteTreeTo depth (dir.child name) fs = .ok () fs'
      ∧ Cleared [fs.locate (dir.child name)] fs fs' := by
  induction depth generalizing fs dir name with
  | zero =>
      -- the path would be too long to exist
      obtain ⟨hleads, -⟩ := (FileSystem.exists?_iff hfs).1 hthere
      have hshort := hleads.usable.short
      omega
  | succ depth ih =>
      have hdots' := HostPath.dots_not_mem_steps_child hdots hname.toIsPart
      obtain ⟨hleads, hne, -⟩ := (FileSystem.exists?_iff hfs).1 hthere
      have hends := deleteTreeTo_ends (depth + 1) (dir.child name) hfs
      have hslash := HostPath.endsWithSlash_child dir hname.toIsSegment
      suffices hok : ∃ fs', deleteTreeTo (depth + 1) (dir.child name) fs = .ok () fs' by
        obtain ⟨fs', hrun⟩ := hok
        obtain ⟨hprunes, hgone⟩ := hends.of_ok hrun
        exact ⟨fs', hrun, .of_prunes hprunes (hgone hthere)⟩
      obtain ⟨e, he⟩ := Option.ne_none_iff_exists'.1 hne
      rcases hfs.dir_or_file he with rfl | ⟨b, rfl⟩
      · have hdir := (FileSystem.isDir_iff hfs).2 ⟨hleads, he⟩
        obtain ⟨es, hes⟩ := FileSystem.entryAt?_eq_dir_iff.1 he
        have hstat : fs.lstat (dir.child name) = .ok (fs.locate (dir.child name), .dir es) :=
          (FileSystem.lstat_eq_ok_iff hfs).2
            ((FileSystem.stat_eq_ok_iff hfs).2 ⟨hleads, rfl, hes, fun _ => rfl⟩)
        obtain ⟨listing, hlist⟩ := FileSystem.readDir_isOk hfs hleads he
        obtain ⟨fs1, hrun, hcleared, hempty⟩ := deleteEntries_returns hdots'
          (fun fs' n hfs' hn hthere' hreach' => ih hdots' hfs' hn hthere' hreach' (by
            have hlonger := (dir.child name).size_child hn.toIsSegment
            omega))
          hfs hdir hreach hlist
        -- the directory is still there, and nothing is in it
        have hself : ∀ top ∈ (listing.map Prod.fst).map fun n => fs.locate (dir.child name) ++ [n],
            ¬ top <+: fs.locate (dir.child name) := by
          intro top htop hp
          obtain ⟨n, -, rfl⟩ := List.mem_map.1 htop
          have hlength := hp.length_le
          rw [List.length_append, List.length_singleton] at hlength
          omega
        have hleads1 := hcleared.leads hdots' hself hleads
        obtain ⟨left, hleft⟩ := FileSystem.readDir_isOk hcleared.plain hleads1 (by
          rw [hcleared.locate, hcleared.rest _ hself, he])
        have hnil : left = [] := by
          rw [List.eq_nil_iff_forall_not_mem]
          rintro ⟨n, e⟩ hmem
          rw [FileSystem.mem_readDir hcleared.plain hleft, hcleared.locate, hempty] at hmem
          cases hmem
        refine ⟨fs1.erase (fs1.locate (dir.child name)), ?_⟩
        rw [deleteTreeTo]
        dsimp only
        rw [hstat]
        dsimp only
        rw [hlist]
        dsimp only
        rw [hrun]
        exact removeDir_eq_ok hcleared.plain hname.toIsPart (hnil ▸ hleft)
      · have hfile : fs.isFile (dir.child name) = true :=
          (FileSystem.isFile_iff hfs).2 ⟨hleads, hslash, b, he⟩
        have hstat : fs.lstat (dir.child name) = .ok (fs.locate (dir.child name), .file b) :=
          (FileSystem.lstat_eq_ok_iff hfs).2 ((FileSystem.stat_eq_ok_iff hfs).2
            ⟨hleads, rfl, FileSystem.entryAt?_eq_file_iff.1 he, fun h => by
              rw [hslash] at h
              cases h⟩)
        refine ⟨fs.erase (fs.locate (dir.child name)), ?_⟩
        rw [deleteTreeTo]
        dsimp only
        rw [hstat]
        exact removeFile_eq_ok hfs hfile

/-- **The deletion of a directory empties it**, even where its path ends in a dot and the directory
itself stays. -/
theorem deleteTree_empties (hdots : ".." ∉ p.steps) (hfs : fs.Plain) (hdir : fs.isDir p = true)
    (hreach : fs.InReach p) (name : String) :
    ((deleteTree p).after fs).entryAt? (fs.locate p ++ [name]) = none := by
  obtain ⟨hleads, he⟩ := (FileSystem.isDir_iff hfs).1 hdir
  obtain ⟨es, hes⟩ := FileSystem.entryAt?_eq_dir_iff.1 he
  have hstat : fs.lstat p = .ok (fs.locate p, .dir es) :=
    (FileSystem.lstat_eq_ok_iff hfs).2
      ((FileSystem.stat_eq_ok_iff hfs).2 ⟨hleads, rfl, hes, fun _ => rfl⟩)
  obtain ⟨listing, hlist⟩ := FileSystem.readDir_isOk hfs hleads he
  obtain ⟨fs1, hrun, hcleared, hempty⟩ := deleteEntries_returns hdots
    (fun fs' n hfs' hn hthere hreach' => deleteTreeTo_returns 4095 hdots hfs' hn hthere hreach' (by
      have hlonger := p.size_child hn.toIsSegment
      rw [pathLimit]
      omega))
    hfs hdir hreach hlist
  have hdelete : deleteTree p fs = removeDir p fs1 := by
    show deleteTreeTo (4095 + 1) p fs = _
    rw [deleteTreeTo]
    dsimp only
    rw [hstat]
    dsimp only
    rw [hlist]
    dsimp only
    rw [hrun]
  have hends : Ends (removeDir p) fs1
      (fun _ fs' => fs'.entryAt? (fs.locate p ++ [name]) = none)
      (fun _ fs' => fs'.entryAt? (fs.locate p ++ [name]) = none) := by
    refine (removeDir_ends hcleared.plain p).mono ?_ ?_
    · rintro _ _ ⟨hslot, -, rfl⟩
      rw [FileSystem.entryAt?_erase hslot]
      split
      · rfl
      · exact hempty name
    · rintro _ _ rfl
      exact hempty name
  rw [after, hdelete]
  exact hends.after

end FileAction

end PackageScript
