import PackageScript.Proofs.Files.Dots
import PackageScript.Proofs.Files.Emptied

set_option autoImplicit false

/-! # Patterns that empty a directory

A pattern below a directory empties it if it stands for the directory itself or for everything in
it (`HostPath.Sweeps`): behind the directory come some dots, and then nothing or one segment that
admits every name. Whatever such a path expands to, its deletion leaves nothing in the directory
(`HostPath.Sweeps.nothing_left`). Any other pattern misses a file that stands alone in the
directory, if the file has the right name (`FileSystem.exists_missed`).
-/

namespace PackageScript

namespace HostPath

variable {d b p : HostPath}

/-- **A path sweeps a directory** if it stands for the directory itself or for everything in
it. The path must be short enough to be opened, and so must be those that it stands for. -/
inductive Sweeps (d p : HostPath) : Prop
  /-- The directory, repeated with dots behind it. -/
  | itself : Dotted d p → p.text.utf8ByteSize < pathLimit → Sweeps d p
  /-- Everything that is in the directory. -/
  | entries {k : Nat} {segment : String} :
      p.steps = d.steps ++ List.replicate k "." ++ [segment] → p.isRooted = d.isRooted →
      isPattern segment = true → p.endsWithSlash = false →
      (∀ name, IsName name → FileSystem.Admits Glob.matcher segment name
        ∧ ((d.behindDots k).child name).text.utf8ByteSize < pathLimit) → Sweeps d p

end HostPath

open HostPath (Dotted Sweeps)
open Setting (forEach)

namespace FileSystem

variable {fs : FileSystem} {d b p q : HostPath} {name : String}

/-! ## What a pattern expands to -/

/-- The expansion of a path with a wildcard starts from the names in front of the first one. -/
theorem expand_eq_descend {front more : List String} {wild : String}
    (hsteps : p.steps = front ++ wild :: more) (hfront : ∀ s ∈ front, ¬ isPattern s = true)
    (hwild : isPattern wild = true) :
    fs.expand p = fs.descend Glob.matcher p.endsWithSlash (wild :: more)
      [front.foldl HostPath.child ⟨if p.isRooted then "/" else ""⟩] := by
  have hpattern : isPattern p.text = true :=
    isPattern_text_iff.2 ⟨wild, by rw [hsteps]; simp, hwild⟩
  have hpass : ∀ s ∈ front, (!isPattern s) = true := fun s hs => by
    rw [Bool.not_eq_true', Bool.eq_false_iff]
    exact hfront s hs
  rw [expand, expandWith, if_pos hpattern]
  dsimp only
  rw [hsteps, List.takeWhile_append_of_pos hpass, List.dropWhile_append_of_pos hpass,
    List.takeWhile_cons, List.dropWhile_cons, hwild]
  simp

theorem not_isPattern_of_mem_dotted (hplain : ∀ s ∈ d.steps, ¬ isPattern s = true) (k : Nat) :
    ∀ s ∈ d.steps ++ List.replicate k ".", ¬ isPattern s = true := by
  intro s hs
  rcases List.mem_append.1 hs with hs | hs
  · exact hplain s hs
  · rw [(List.mem_replicate.1 hs).2]
    decide

theorem expand_dotted (fs : FileSystem) (hplain : ∀ s ∈ d.steps, ¬ isPattern s = true)
    (h : Dotted d p) : (fs.expand p).1 = [p] := by
  obtain ⟨k, hsteps⟩ := h.steps
  rw [expand, expandWith, if_neg]
  rw [isPattern_text_iff, hsteps]
  rintro ⟨s, hs, hp⟩
  exact not_isPattern_of_mem_dotted hplain k s hs hp

theorem expand_behindDots (fs : FileSystem) (hplain : ∀ s ∈ d.steps, ¬ isPattern s = true)
    {k : Nat} {wild : String} {more : List String}
    (hsteps : p.steps = d.steps ++ List.replicate k "." ++ wild :: more)
    (hrooted : p.isRooted = d.isRooted) (hwild : isPattern wild = true) :
    fs.expand p
      = fs.descend Glob.matcher p.endsWithSlash (wild :: more) [d.behindDots k] := by
  rw [expand_eq_descend hsteps (not_isPattern_of_mem_dotted hplain k) hwild, List.foldl_append,
    hrooted]
  rfl

/-- A list in which something has a property splits at the first that has it. -/
theorem exists_first_pattern {names : List String} (h : ∃ s ∈ names, isPattern s = true) :
    ∃ front wild more, names = front ++ wild :: more ∧ (∀ s ∈ front, ¬ isPattern s = true)
      ∧ isPattern wild = true := by
  obtain ⟨wild, hfind⟩ := Option.isSome_iff_exists.1 (List.find?_isSome.2 h)
  obtain ⟨hwild, front, more, rfl, hfront⟩ := List.find?_eq_some_iff_append.1 hfind
  refine ⟨front, wild, more, rfl, fun s hs hp => ?_, hwild⟩
  have hnot := hfront s hs
  rw [hp] at hnot
  cases hnot

/-- Segments that do not lead up lead to a place at or below the one they start from. -/
theorem prefix_of_mem_descend (hfs : fs.Plain)
    {matcher : String → Except GlobFault (String → Bool)} {dirsOnly : Bool} {segments : List String}
    (hsegments : ∀ s ∈ segments, IsSegment s) (hup : ".." ∉ segments)
    (h : q ∈ (fs.descend matcher dirsOnly segments [b]).1) : fs.locate b <+: fs.locate q := by
  induction segments generalizing b with
  | nil =>
      rw [descend, List.mem_singleton] at h
      exact h ▸ List.prefix_rfl
  | cons segment rest ih =>
      obtain ⟨hne, hrest⟩ := List.ne_and_not_mem_of_not_mem_cons hup
      obtain ⟨n, hop, hq⟩ := mem_descend_cons.1 h
      have hn : IsSegment n ∧ n ≠ ".." := by
        have hthere := hop.there
        by_cases hpat : isPattern segment = true
        · rw [if_pos hpat] at hthere
          have hname := hfs.isName _ n ((mem_namesIn_iff hfs).1 hthere).2
          exact ⟨hname.toIsSegment, hname.ne_dots⟩
        · rw [(admits_iff_of_plain hpat).1 hop.admits]
          exact ⟨hsegments segment List.mem_cons_self, Ne.symm hne⟩
      refine List.IsPrefix.trans ?_
        (ih (fun s hs => hsegments s (List.mem_cons_of_mem _ hs)) hrest hq)
      rw [locate, locate, fs.origin_child b hn.1, HostPath.steps_child b hn.1, List.foldl_append]
      exact Place.prefix_step _ hn.2

/-- **What a path expands to lies below the names in front of its wildcards.** -/
theorem prefix_of_mem_expand (hfs : fs.Plain) {lead more : List String}
    (hsteps : p.steps = d.steps ++ (lead ++ more)) (hrooted : p.isRooted = d.isRooted)
    (hplain : ∀ s ∈ d.steps ++ lead, ¬ isPattern s = true) (hup : ".." ∉ lead ++ more)
    (h : q ∈ (fs.expand p).1) : fs.locate d ++ lead.filter (· != ".") <+: fs.locate q := by
  by_cases hpattern : isPattern p.text = true
  · -- the first wildcard stands behind these names
    obtain ⟨front, wild, after, hmore, hfront, hwild⟩ :
        ∃ front wild after, more = front ++ wild :: after ∧ (∀ s ∈ front, ¬ isPattern s = true)
          ∧ isPattern wild = true := by
      obtain ⟨s, hs, hp⟩ := isPattern_text_iff.1 hpattern
      refine exists_first_pattern ⟨s, ?_, hp⟩
      rw [hsteps, ← List.append_assoc] at hs
      exact (List.mem_append.1 hs).resolve_left fun hmem => hplain s hmem hp
    have hsegment : ∀ s ∈ p.steps, IsSegment s := fun s hs => HostPath.isSegment_of_mem_steps hs
    have hsplit : p.steps = (d.steps ++ (lead ++ front)) ++ wild :: after := by
      rw [hsteps, hmore]
      simp only [List.append_assoc]
    have hopen : ∀ s ∈ d.steps ++ (lead ++ front), ¬ isPattern s = true := by
      intro s hs
      rw [← List.append_assoc] at hs
      exact (List.mem_append.1 hs).elim (hplain s) (hfront s)
    rw [expand_eq_descend hsplit hopen hwild] at h
    have hbase : ∀ s ∈ d.steps ++ (lead ++ front), IsSegment s := fun s hs =>
      hsegment s (hsplit ▸ List.mem_append_left _ hs)
    have hup' : ".." ∉ (lead ++ front) ++ wild :: after := by
      rw [List.append_assoc, ← hmore]
      exact hup
    have hbelow := prefix_of_mem_descend hfs
      (fun s hs => hsegment s (hsplit ▸ List.mem_append_right _ hs))
      (fun hmem => hup' (List.mem_append_right _ hmem)) h
    have hplace : fs.locate ((d.steps ++ (lead ++ front)).foldl HostPath.child
        ⟨if p.isRooted then "/" else ""⟩) = fs.locate d ++ (lead ++ front).filter (· != ".") := by
      refine fs.locate_of_steps_eq ?_ ?_ fun hmem => hup' (List.mem_append_left _ hmem)
      · rw [HostPath.steps_foldl_child hbase]
        split <;> rfl
      · rw [HostPath.isRooted_foldl_child hbase, ← hrooted]
        cases p.isRooted <;> rfl
    rw [hplace, List.filter_append, ← List.append_assoc] at hbelow
    exact (List.prefix_append _ _).trans hbelow
  · -- a path without a wildcard stands for itself
    have hq : q = p := by
      rw [expand, expandWith, if_neg hpattern, List.mem_singleton] at h
      exact h
    rw [hq, fs.locate_of_steps_eq hsteps hrooted hup, List.filter_append, ← List.append_assoc]
    exact List.prefix_append _ _

/-! ## Patterns that miss something -/

/-- **A directory in which a file stands alone.** -/
structure Alone (fs : FileSystem) (d : HostPath) (name : String) : Prop where
  plain : fs.Plain
  dir : fs.isDir d = true
  file : ∃ b, fs.entryAt? (fs.locate d ++ [name]) = some (.file b)
  others : ∀ m, m ≠ name → fs.entryAt? (fs.locate d ++ [m]) = none

/-- A file can be put into an empty directory under every name. -/
theorem exists_alone (hfs : fs.Plain) (hempty : fs.readDir d = .ok []) (hname : IsName name) :
    ∃ fs' : FileSystem, fs'.Alone d name := by
  have hleads := (readDir_eq_ok hfs hempty).1
  have hdir := dir_of_readDir hfs hempty
  have hnone : ∀ m, fs.entryAt? (fs.locate d ++ [m]) = none := by
    intro m
    apply Decidable.byContradiction
    intro hne
    obtain ⟨e, he⟩ := Option.ne_none_iff_exists'.1 hne
    cases (mem_readDir hfs hempty).2 he
  have hslot : fs.Slot (fs.locate d ++ [name]) := ⟨hdir, hname⟩
  have hnot : fs.entryAt? (fs.locate d ++ [name]) ≠ some .dir := by
    rw [hnone]
    simp
  have hover : Overlay (fun _ => True) fs (fs.setFile (fs.locate d ++ [name]) .empty) :=
    .setFile hfs hslot hnot trivial .empty
  have hentry := entryAt?_setFile hslot hnot .empty
  have hplace : (fs.setFile (fs.locate d ++ [name]) .empty).locate d = fs.locate d :=
    locate_congr rfl d
  have hhome : (fs.setFile (fs.locate d ++ [name]) .empty).home = fs.home := rfl
  have hleads' := hleads.mono hhome hover.dirs
  refine ⟨_, hover.plain, (isDir_iff hover.plain).2 ⟨hleads', ?_⟩, ⟨.empty, ?_⟩,
    fun m hm => ?_⟩
  · rw [hplace]
    exact hover.dirs _ hdir
  · rw [hplace, hentry, if_pos rfl]
  · rw [hplace, hentry, if_neg fun heq => ?_]
    · exact hnone m
    · exact hm (List.singleton_inj.1 (List.append_cancel_left heq))

theorem exists?_eq_false_of_none (hfs : fs.Plain) (h : fs.entryAt? (fs.locate p) = none) :
    fs.exists? p = false := by
  rw [Bool.eq_false_iff]
  exact fun hex => ((exists?_iff hfs).1 hex).2.1 h

theorem Alone.missed_of_lead (h : fs.Alone d name) {lead more : List String} {first : String}
    {others : List String} (hsteps : p.steps = d.steps ++ (lead ++ more))
    (hrooted : p.isRooted = d.isRooted) (hplain : ∀ s ∈ d.steps ++ lead, ¬ isPattern s = true)
    (hup : ".." ∉ lead ++ more) (hlead : lead.filter (· != ".") = first :: others)
    (hne : first ≠ name) (hq : q ∈ (fs.expand p).1) : fs.exists? q = false := by
  refine exists?_eq_false_of_none h.plain ?_
  obtain ⟨below, hplace⟩ := prefix_of_mem_expand h.plain hsteps hrooted hplain hup hq
  rw [hlead, List.append_cons, List.append_assoc] at hplace
  rw [← hplace]
  exact entryAt?_below_none (h.others first hne) _

/-- A wildcard directly in the directory misses a file if it asks for directories, does not admit
the name of the file, or finds it behind too long a path. -/
theorem Alone.missed_of_wildcard (h : fs.Alone d name) {k : Nat} {wild : String}
    {more : List String} (hsteps : p.steps = d.steps ++ List.replicate k "." ++ wild :: more)
    (hrooted : p.isRooted = d.isRooted) (hplain : ∀ s ∈ d.steps, ¬ isPattern s = true)
    (hwild : isPattern wild = true)
    (hmiss : more = [] → p.endsWithSlash = false → Admits Glob.matcher wild name →
      pathLimit ≤ ((d.behindDots k).child name).text.utf8ByteSize)
    (hq : q ∈ (fs.expand p).1) : fs.exists? q = false := by
  rw [fs.expand_behindDots hplain hsteps hrooted hwild] at hq
  obtain ⟨n, hop, hq⟩ := mem_descend_cons.1 hq
  have hplace := fs.locate_dotted (d.dotted_behindDots k)
  -- only the file is there to be found
  have hthere := hop.there
  rw [if_pos hwild, mem_namesIn_iff h.plain, hplace] at hthere
  have hn : n = name := by
    apply Decidable.byContradiction
    intro hne
    exact hthere.2 (h.others n hne)
  rw [hn] at hop hq
  obtain ⟨b, hfile⟩ := h.file
  have hname := h.plain.isName _ name (by rw [hfile]; simp)
  have hnotdir : ¬ fs.isDir ((d.behindDots k).child name) = true := by
    intro hdir
    have hentry := ((isDir_iff h.plain).1 hdir).2
    rw [fs.locate_child _ hname.toIsPart, hplace, hfile] at hentry
    cases hentry
  have hmore : more = [] := by
    apply Decidable.byContradiction
    exact fun hne => hnotdir (hop.kept (Or.inl hne))
  have hslash : p.endsWithSlash = false := by
    rw [Bool.eq_false_iff]
    exact fun hs => hnotdir (hop.kept (Or.inr hs))
  have hlong := hmiss hmore hslash hop.admits
  rw [hmore, descend, List.mem_singleton] at hq
  rw [hq, Bool.eq_false_iff]
  intro hex
  have hshort := ((exists?_iff h.plain).1 hex).1.usable.short
  omega

theorem exists_dots_append (segs : List String) :
    ∃ k others, segs = List.replicate k "." ++ others ∧ others.head? ≠ some "." := by
  induction segs with
  | nil => exact ⟨0, [], rfl, by simp⟩
  | cons s rest ih =>
      by_cases hdot : s = "."
      · obtain ⟨k, others, hrest, hhead⟩ := ih
        exact ⟨k + 1, others, by rw [hrest, hdot, List.replicate_succ, List.cons_append], hhead⟩
      · exact ⟨0, s :: rest, rfl, by simpa using hdot⟩

/-- **A pattern that does not sweep a directory misses some file that stands alone in it.** -/
theorem exists_missed (hfs : fs.Plain) (hempty : fs.readDir d = .ok []) {segs : List String}
    (hsteps : p.steps = d.steps ++ segs) (hrooted : p.isRooted = d.isRooted)
    (hplain : ∀ s ∈ d.steps, ¬ isPattern s = true) (hup : ".." ∉ segs) (hnot : ¬ Sweeps d p) :
    ∃ (fs' : FileSystem) (name : String), fs'.Alone d name
      ∧ ∀ q ∈ (fs'.expand p).1, fs'.exists? q = false := by
  -- behind the dots comes nothing, a name or a wildcard
  obtain ⟨k, others, rfl, hhead⟩ := exists_dots_append segs
  cases others with
  | nil =>
      -- the path of the directory itself is too long to be opened
      rw [List.append_nil] at hsteps
      obtain ⟨fs', halone⟩ := exists_alone hfs hempty (by decide : IsName "a")
      refine ⟨fs', "a", halone, fun q hq => ?_⟩
      have hdots : Dotted d p := ⟨⟨k, hsteps⟩, hrooted⟩
      rw [fs'.expand_dotted hplain hdots, List.mem_singleton] at hq
      rw [hq, Bool.eq_false_iff]
      intro hex
      exact hnot (.itself hdots ((exists?_iff halone.plain).1 hex).1.usable.short)
  | cons first more =>
      have hfirst : first ≠ "." := by simpa using hhead
      by_cases hwild : isPattern first = true
      · rw [← List.append_assoc] at hsteps
        by_cases hall : more = [] ∧ p.endsWithSlash = false
        · -- some name is not admitted, or makes the path too long
          obtain ⟨rfl, hslash⟩ := hall
          obtain ⟨name, hname, hmiss⟩ : ∃ name, IsName name ∧ ¬ (Admits Glob.matcher first name
              ∧ ((d.behindDots k).child name).text.utf8ByteSize < pathLimit) := by
            by_contra hnone
            refine hnot (.entries hsteps hrooted hwild hslash fun name hname => ?_)
            exact Classical.byContradiction fun hmiss => hnone ⟨name, hname, hmiss⟩
          obtain ⟨fs', halone⟩ := exists_alone hfs hempty hname
          refine ⟨fs', name, halone, fun q hq => ?_⟩
          exact halone.missed_of_wildcard hsteps hrooted hplain hwild
            (fun _ _ hadmits => Nat.not_lt.1 fun hshort => hmiss ⟨hadmits, hshort⟩) hq
        · obtain ⟨fs', halone⟩ := exists_alone hfs hempty (by decide : IsName "a")
          refine ⟨fs', "a", halone, fun q hq => ?_⟩
          exact halone.missed_of_wildcard hsteps hrooted hplain hwild
            (fun hmore hslash => absurd ⟨hmore, hslash⟩ hall) hq
      · -- one of two names is not the one that the path leads to
        obtain ⟨name, hname, hne⟩ : ∃ name, IsName name ∧ first ≠ name := by
          by_cases ha : first = "a"
          · exact ⟨"b", by decide, by rw [ha]; decide⟩
          · exact ⟨"a", by decide, ha⟩
        obtain ⟨fs', halone⟩ := exists_alone hfs hempty hname
        refine ⟨fs', name, halone, fun q hq => ?_⟩
        rw [List.append_cons] at hsteps hup
        have hlead : (List.replicate k "." ++ [first]).filter (· != ".") = [first] := by
          rw [List.filter_append, List.filter_eq_nil_iff.2, List.nil_append,
            List.filter_cons_of_pos (by simpa using hfirst), List.filter_nil]
          intro s hs
          rw [(List.mem_replicate.1 hs).2]
          decide
        refine halone.missed_of_lead hsteps hrooted (fun s hs => ?_) hup hlead hne hq
        rw [← List.append_assoc] at hs
        rcases List.mem_append.1 hs with hs | hs
        · exact not_isPattern_of_mem_dotted hplain k s hs
        · rw [List.mem_singleton.1 hs]
          exact hwild

end FileSystem

/-! ## What a deletion leaves -/

open FileSystem (InReach Cleared Admits)

variable {fs : FileSystem} {d p : HostPath}

namespace FileAction

theorem deleteTree_of_missing (hfs : fs.Plain) (h : fs.exists? p = false) :
    deleteTree p fs = .ok () fs ∨ ∃ e, deleteTree p fs = .error e fs := by
  show deleteTreeTo (4095 + 1) p fs = _ ∨ ∃ e, deleteTreeTo (4095 + 1) p fs = _
  rw [deleteTreeTo]
  dsimp only
  cases hstat : fs.lstat p with
  | ok found =>
      rw [FileSystem.exists?, (FileSystem.lstat_eq_ok_iff hfs).1 hstat] at h
      cases h
  | error e =>
      cases e <;> simp

theorem after_forEach_deleteTree_of_missing {paths : List HostPath} (hfs : fs.Plain)
    (h : ∀ q ∈ paths, fs.exists? q = false) : (forEach deleteTree paths).after fs = fs := by
  induction paths with
  | nil => rfl
  | cons q rest ih =>
      rw [forEach]
      rcases deleteTree_of_missing hfs (h q List.mem_cons_self) with hok | ⟨e, herror⟩
      · rw [after_bind_of_ok hok]
        exact ih fun q hq => h q (List.mem_cons_of_mem _ hq)
      · exact after_bind_of_error herror

theorem after_forEach_singleton (act : HostPath → FileAction Unit) (p : HostPath) :
    (forEach act [p]).after fs = (act p).after fs := by
  rw [forEach]
  cases hrun : act p fs with
  | ok a fs' =>
      rw [after_bind_of_ok hrun, after, after, hrun]
      rfl
  | error e fs' => rw [after_bind_of_error hrun, after, hrun]

end FileAction

/-- A pattern that admits every name expands to all that is in the directory. -/
theorem FileSystem.expand_eq_children (hfs : fs.Plain)
    (hplain : ∀ s ∈ d.steps, ¬ isPattern s = true) {k : Nat} {segment : String}
    (hsteps : p.steps = d.steps ++ List.replicate k "." ++ [segment])
    (hrooted : p.isRooted = d.isRooted) (hwild : isPattern segment = true)
    (hslash : p.endsWithSlash = false)
    (hall : ∀ name, IsName name → Admits Glob.matcher segment name) :
    (fs.expand p).1 = (fs.namesIn (d.behindDots k)).map (d.behindDots k).child := by
  obtain ⟨accepts, hmatcher, -⟩ :=
    (FileSystem.admits_iff_of_pattern hwild).1 (hall "a" (by decide))
  have hkept : (fs.namesIn (d.behindDots k)).filter accepts = fs.namesIn (d.behindDots k) := by
    refine List.filter_eq_self.2 fun n hn => ?_
    have hname := hfs.isName _ n ((FileSystem.mem_namesIn_iff hfs).1 hn).2
    obtain ⟨accepts', hmatcher', haccepts⟩ :=
      (FileSystem.admits_iff_of_pattern hwild).1 (hall n hname)
    rw [hmatcher] at hmatcher'
    cases hmatcher'
    exact haccepts
  rw [fs.expand_behindDots hplain hsteps hrooted hwild, hslash, FileSystem.descend_cons,
    FileSystem.candidates, if_pos hwild, hmatcher]
  simp [FileSystem.descend, FileSystem.follow, hkept]

/-- **A pattern that sweeps a directory leaves nothing in it**, if all that it stands for is
within reach. -/
theorem HostPath.Sweeps.nothing_left (h : Sweeps d p) (hfs : fs.Plain) (hup : ".." ∉ d.steps)
    (hplain : ∀ s ∈ d.steps, ¬ isPattern s = true) (hdir : fs.isDir d = true)
    (hreach : ∀ q ∈ (fs.expand p).1, fs.exists? q = true → fs.InReach q) (name : String) :
    ((forEach FileAction.deleteTree (fs.expand p).1).after fs).entryAt? (fs.locate d ++ [name])
      = none := by
  have hupDots : ∀ b, Dotted d b → ".." ∉ b.steps := by
    intro b hb hmem
    obtain ⟨k, hsteps⟩ := hb.steps
    rw [hsteps] at hmem
    exact (List.mem_append.1 hmem).elim hup fun hdot =>
      absurd (List.mem_replicate.1 hdot).2 (by decide)
  cases h with
  | itself hdots hshort =>
      have hself := FileSystem.isDir_dotted hfs hdots hdir hshort
      rw [fs.expand_dotted hplain hdots] at hreach ⊢
      rw [FileAction.after_forEach_singleton, ← fs.locate_dotted hdots]
      exact FileAction.deleteTree_empties (hupDots p hdots) hfs hself
        (hreach p (List.mem_singleton_self p) (FileSystem.exists?_of_isDir hfs hself)) name
  | @entries k segment hsteps hrooted hwild hslash hall =>
      have hdots := d.dotted_behindDots k
      -- the directory is short enough to be opened if what is in it is
      have hself : fs.isDir (d.behindDots k) = true := by
        refine FileSystem.isDir_dotted hfs hdots hdir ?_
        have hlonger := (d.behindDots k).size_child (by decide : IsName "a").toIsSegment
        have hshort := (hall "a" (by decide)).2
        omega
      rw [FileSystem.expand_eq_children hfs hplain hsteps hrooted hwild hslash
        fun n hn => (hall n hn).1] at hreach ⊢
      obtain ⟨hleads, hentry⟩ := (FileSystem.isDir_iff hfs).1 hself
      have htext := mt String.isEmpty_iff.1 hleads.usable.ne_empty
      obtain ⟨listing, hlist⟩ := FileSystem.readDir_isOk hfs hleads hentry
      have hnames : fs.namesIn (d.behindDots k) = listing.map Prod.fst := by
        rw [FileSystem.namesIn_eq, if_neg htext, hlist]
      have hwithin : fs.InReach (d.behindDots k) := by
        refine .of_children hfs.named hleads.usable.short fun n hthere => ?_
        have hmem : n ∈ fs.namesIn (d.behindDots k) :=
          (FileSystem.mem_namesIn_iff hfs).2 ⟨by rwa [if_neg htext], hthere⟩
        exact hreach _ (List.mem_map_of_mem hmem) (FileSystem.exists?_child hfs hself
          (hall n (hfs.isName _ n hthere)).2 hthere)
      obtain ⟨fs', hrun, -, hgone⟩ := FileAction.deleteEntries_returns (hupDots _ hdots)
        (fun fs' n hfs' hn hthere' hreach' => FileAction.deleteTreeTo_returns pathLimit
          (hupDots _ hdots) hfs' hn hthere' hreach' (by omega)) hfs hself hwithin hlist
      have hdelete : forEach FileAction.deleteTree
          ((fs.namesIn (d.behindDots k)).map (d.behindDots k).child) fs = .ok () fs' := by
        rw [hnames, List.map_map, ← hrun, FileAction.deleteEntries_eq_forEach]
        rfl
      rw [FileAction.after, hdelete, ← fs.locate_dotted hdots]
      exact hgone name

end PackageScript
