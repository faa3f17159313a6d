import PackageScript.Proofs.Command.DeletedMatches
import PackageScript.Proofs.Files.Relocation

set_option autoImplicit false

/-! # Moving all matches into one directory

The matches of a pattern are moved one after the other, each under its own name into one directory.
Names can meet there: matches of one name come from different directories, and what is moved later
replaces the files that are in its way (`FileSystem.Overtakes`). Apart from that nothing is lost.
While the matches are moved (`FileSystem.Underway`), those to come stand as they stood at first,
since all matches of a pattern are equally deep (`length_locate_of_mem_expand`), so that none is
inside another; and a directory stands under a name only if a match brought it there. So each match
arrives under its name, and stays there unless it is overtaken (`Setting.move_keeps_files`).
-/

namespace PackageScript

/-! ## Entries that can be moved -/

/-- **A later match puts a file** where `below` of an earlier one of the same name has come to
stand: it has a file there itself, or it is a file, which lands inside the directory that stands
under its name. -/
def FileSystem.Overtakes (fs : FileSystem) (later : HostPath) (name : String) (below : Place) :
    Prop :=
  (∃ b, fs.entryAt? (fs.locate later ++ below) = some (.file b))
    ∨ below = [name] ∧ ∃ b, fs.entryAt? (fs.locate later) = some (.file b)

namespace FileAction

open FileSystem (Overlay Grows Relocated)

variable {fs fs' : FileSystem} {p src dst : HostPath}

theorem endsInName_of_rename (h : rename src dst fs = .ok () fs') : endsInName src = true := by
  by_contra hends
  rw [Bool.not_eq_true] at hends
  unfold rename at h
  rw [hends] at h
  cases hsrc : fs.resolve .never src with
  | error e =>
      rw [hsrc] at h
      cases h
  | ok spot =>
      rw [hsrc] at h
      dsimp only at h
      cases hdst : fs.resolve .never dst with
      | error e =>
          rw [hdst] at h
          cases h
      | ok spot' =>
          rw [hdst] at h
          simp at h

theorem endsInName_of_removeDir (h : removeDir p fs = .ok () fs') : endsInName p = true := by
  unfold removeDir at h
  rw [endsInName]
  split at h
  · cases h
  · split at h
    · cases h
    · cases h
    · cases h
    · next name hdot hdots hlast =>
        simpa [hlast] using ⟨hdot, hdots⟩

/-- A directory is deleted only under a name. -/
theorem endsInName_of_deleteTreeTo {depth : Nat} (hfs : fs.Plain) (hdir : fs.isDir p = true)
    (h : deleteTreeTo depth p fs = .ok () fs') : endsInName p = true := by
  cases depth with
  | zero => cases h
  | succ depth =>
      obtain ⟨place, es, hstat⟩ := FileSystem.isDir_iff_stat.1 hdir
      dsimp only [deleteTreeTo] at h
      rw [(FileSystem.lstat_eq_ok_iff hfs).2 hstat] at h
      dsimp only at h
      split at h
      · cases h
      · split at h
        · cases h
        · exact endsInName_of_removeDir h

/-- **What was moved had a name.** -/
theorem endsInName_of_moveEntry (hfs : fs.Plain) (h : moveEntry src dst fs = .ok () fs') :
    fs.Leads src ∧ fs.entryAt? (fs.locate src) ≠ none ∧ endsInName src = true := by
  obtain ⟨⟨place, node⟩, fs0, hask, hrun⟩ := bind_eq_ok_iff.1 h
  obtain ⟨hstat, hsame⟩ := ask_eq_ok_iff.1 hask
  rw [hsame] at hrun
  dsimp only at hrun
  obtain ⟨⟨⟩, fs1, hparent, hmove⟩ := bind_eq_ok_iff.1 hrun
  obtain ⟨hleads, rfl, hnode, -⟩ := (FileSystem.stat_eq_ok_iff hfs).1 hstat
  refine ⟨hleads, ?_, ?_⟩
  · rw [FileSystem.entryAt?_eq_map, hnode]
    simp
  have hrenamed : (do
        let target ← look fun fs => fs.landing src dst
        clearTarget target
        ensureParent target
        rename src target) fs1 = .ok () fs' → endsInName src = true := by
    intro h
    obtain ⟨target, fs2, -, h⟩ := bind_eq_ok_iff.1 h
    obtain ⟨⟨⟩, fs3, -, h⟩ := bind_eq_ok_iff.1 h
    obtain ⟨⟨⟩, fs4, -, h⟩ := bind_eq_ok_iff.1 h
    exact endsInName_of_rename h
  cases node with
  | dir es =>
      have hdir : fs.isDir src = true := FileSystem.isDir_iff_stat.2 ⟨_, es, hstat⟩
      have hgrows := (ensureParent_ends hfs dst).of_ok hparent
      obtain ⟨⟨⟩, fs2, hcopy, hdelete⟩ := bind_eq_ok_iff.1 hmove
      have hover : Overlay _ fs1 fs2 :=
        (copyTreeTo_below pathLimit hgrows.plain src dst).of_ok hcopy
      exact endsInName_of_deleteTreeTo hover.plain
        (hover.isDir hgrows.plain (Overlay.isDir hgrows hfs hdir)) hdelete
  | file b => exact hrenamed hmove
  | link t => exact hrenamed hmove

/-! ## One match -/

/-- **A match has been moved into a directory** under its name: to exactly the place of that name,
or, if it is a file and a directory stands there, inside that directory. -/
inductive MovedInto (src dst : HostPath) (name : String) (fs fs' : FileSystem) : Prop
  | onto (hrelocated : Relocated src (dst.child name) fs fs')
  | inside (hrelocated : Relocated src ((dst.child name).child name) fs fs')
      (hfile : ∃ b, fs.entryAt? (fs.locate src) = some (.file b))
      (hdir : fs.entryAt? (fs.locate dst ++ [name]) = some .dir)

/-- **A move into a directory apart** goes one of these ways. -/
theorem moveEntry_into (hfs : fs.Plain) (hdots : ".." ∉ dst.steps)
    (hdisjoint : Place.Disjoint (fs.locate src) (fs.locate dst))
    (h : moveEntry src (dst.into src) fs = .ok () fs') :
    ∃ name, src.fileName? = some name ∧ MovedInto src dst name fs fs' := by
  obtain ⟨hleads, hthere, hends⟩ := endsInName_of_moveEntry hfs h
  obtain ⟨name, hname⟩ := HostPath.exists_fileName?_of_endsInName hends
  have hpart := HostPath.isPart_of_fileName? hname
  have hbelow : ∀ more, Place.Disjoint (fs.locate src) (fs.locate dst ++ more) := fun more => by
    have happend := hdisjoint.append [] more
    rwa [List.append_nil] at happend
  have hdots' := HostPath.dots_not_mem_steps_child hdots hpart
  rw [HostPath.into_eq_child hname] at h
  refine ⟨name, hname, ?_⟩
  -- a file goes on into a directory that already stands under its name
  by_cases hinside : fs.isDir src = false ∧ fs.isDir (dst.child name) = true
  · have hgoes : fs.destination src (dst.child name) = (dst.child name).child name := by
      rw [FileSystem.destination, hinside.1, FileSystem.landing, hinside.2,
        HostPath.into_eq_child hname]
      simp
    have hrelocated := moveEntry_relocated hfs hdots' (by
      rw [hgoes, fs.locate_child _ hpart, fs.locate_child _ hpart, List.append_assoc]
      exact hbelow _) h
    rw [hgoes] at hrelocated
    have hdir := ((FileSystem.isDir_iff hfs).1 hinside.2).2
    rw [fs.locate_child _ hpart] at hdir
    refine .inside hrelocated ?_ hdir
    obtain ⟨e, he⟩ := Option.ne_none_iff_exists'.1 hthere
    rcases hfs.dir_or_file he with rfl | ⟨b, rfl⟩
    · have hisDir := (FileSystem.isDir_iff hfs).2 ⟨hleads, he⟩
      rw [hinside.1] at hisDir
      cases hisDir
    · exact ⟨b, he⟩
  · have hgoes : fs.destination src (dst.child name) = dst.child name := by
      rw [not_and_or, Bool.not_eq_false, Bool.not_eq_true] at hinside
      rw [FileSystem.destination, FileSystem.landing, dst.endsWithSlash_child hpart.toIsSegment]
      rcases hinside with hdir | hdir <;> simp [hdir]
    have hrelocated := moveEntry_relocated hfs hdots' (by
      rw [hgoes, fs.locate_child _ hpart]
      exact hbelow _) h
    rw [hgoes] at hrelocated
    exact .onto hrelocated

namespace MovedInto

variable {name : String}

theorem plain (h : MovedInto src dst name fs fs') : fs'.Plain := by
  cases h with
  | onto h => exact h.plain
  | inside h _ _ => exact h.plain

theorem home (h : MovedInto src dst name fs fs') : fs'.home = fs.home := by
  cases h with
  | onto h => exact h.home
  | inside h _ _ => exact h.home

theorem gone (h : MovedInto src dst name fs fs') (below : Place) :
    fs'.entryAt? (fs.locate src ++ below) = none := by
  cases h with
  | onto h => exact h.gone below
  | inside h _ _ => exact h.gone below

/-- What is neither at the match nor under its name in the directory stays as it is, except that the
directory may appear with those around it. -/
theorem rest (h : MovedInto src dst name fs fs') (hname : IsPart name) {q : Place}
    (hsrc : ¬ fs.locate src <+: q) (hdst : ¬ fs.locate dst ++ [name] <+: q) :
    fs'.entryAt? q = fs.entryAt? q
      ∨ q <+: fs.locate dst ∧ fs.entryAt? q = none ∧ fs'.entryAt? q = some .dir := by
  cases h with
  | onto h =>
      have hrest := h.rest q hsrc
      rw [fs.locate_child _ hname] at hrest
      refine (hrest hdst).imp id fun ⟨hp, hmade⟩ => ⟨?_, hmade⟩
      rw [List.prefix_concat_iff] at hp
      exact hp.resolve_left fun heq => hdst (heq ▸ List.prefix_rfl)
  | inside h _ hdir =>
      have hrest := h.rest q hsrc
      rw [fs.locate_child _ hname, fs.locate_child _ hname] at hrest
      refine (hrest fun hp => hdst ((List.prefix_append _ _).trans hp)).imp id
        fun ⟨hp, hmade⟩ => ⟨?_, hmade⟩
      rw [List.prefix_concat_iff, List.prefix_concat_iff] at hp
      rcases hp with heq | heq | hp
      · exact absurd (heq ▸ List.prefix_append _ _) hdst
      · exact absurd (heq ▸ List.prefix_rfl) hdst
      · exact hp

/-- What stood at the match arrives under its name, unless it is a file and a directory stands
there. -/
theorem arrives (h : MovedInto src dst name fs fs') (hname : IsPart name)
    (hdir : ∀ b, fs.entryAt? (fs.locate src) = some (.file b) →
      fs.entryAt? (fs.locate dst ++ [name]) ≠ some .dir) {below : Place} {e : Entry}
    (he : fs.entryAt? (fs.locate src ++ below) = some e) :
    fs'.entryAt? (fs.locate dst ++ name :: below) = some e := by
  cases h with
  | onto h =>
      have hcopied := h.copied below e he fun _ =>
        Or.inl (dst.text_child_ne_empty hname.toIsSegment)
      rw [fs.locate_child _ hname, List.append_assoc] at hcopied
      exact hcopied
  | inside _ hfile hdir' =>
      obtain ⟨b, hb⟩ := hfile
      exact absurd hdir' (hdir b hb)

/-- **A file in the directory stays unless it is overtaken.** -/
theorem stays (h : MovedInto src dst name fs fs') (hfs : fs.Plain) (hname : IsPart name)
    (hdisjoint : Place.Disjoint (fs.locate src) (fs.locate dst)) {n : String} {below : Place}
    {b : ByteArray} (hb : fs.entryAt? (fs.locate dst ++ n :: below) = some (.file b))
    (hfree : n = name → ¬ fs.Overtakes src name below) :
    fs'.entryAt? (fs.locate dst ++ n :: below) = some (.file b) := by
  have hunchanged : ∀ {P : Prop},
      (fs'.entryAt? (fs.locate dst ++ n :: below) = fs.entryAt? (fs.locate dst ++ n :: below)
        ∨ P ∧ fs.entryAt? (fs.locate dst ++ n :: below) = none
          ∧ fs'.entryAt? (fs.locate dst ++ n :: below) = some .dir) →
      fs'.entryAt? (fs.locate dst ++ n :: below) = some (.file b) := by
    rintro P (heq | ⟨-, hnone, -⟩)
    · rw [heq, hb]
    · rw [hb] at hnone
      cases hnone
  have hsrc : ¬ fs.locate src <+: fs.locate dst ++ n :: below := hdisjoint.not_prefix_append _
  by_cases hn : n = name
  · subst hn
    cases h with
    | onto h =>
        have hplace : fs.locate (dst.child n) ++ below = fs.locate dst ++ n :: below := by
          rw [fs.locate_child _ hname, List.append_assoc, List.singleton_append]
        have hnamed : below = [] → (dst.child n).text ≠ "" ∨ fs.entryAt? fs.home = some .dir :=
          fun _ => Or.inl (dst.text_child_ne_empty hname.toIsSegment)
        cases he : fs.entryAt? (fs.locate src ++ below) with
        | none =>
            have hkept := h.kept below he
            rw [hplace] at hkept
            rw [hkept, hb]
        | some e =>
            rcases hfs.dir_or_file he with rfl | ⟨c, rfl⟩
            · -- a directory does not take the place of a file
              have hfits := h.fits below he hnamed b
              rw [hplace] at hfits
              exact absurd hb hfits
            · exact absurd (Or.inl ⟨c, he⟩) (hfree rfl)
    | inside h hfile hdir =>
        obtain ⟨c, hc⟩ := hfile
        have hplace : fs.locate ((dst.child n).child n) = fs.locate dst ++ [n, n] := by
          rw [fs.locate_child _ hname, fs.locate_child _ hname, List.append_assoc]
          rfl
        -- the match has gone into the directory of its own name
        by_cases hin : fs.locate ((dst.child n).child n) <+: fs.locate dst ++ n :: below
        · obtain ⟨more, hmore⟩ := hin
          rw [hplace, List.append_assoc] at hmore
          obtain rfl : n :: more = below := (List.cons.inj (List.append_cancel_left hmore)).2
          cases he : fs.entryAt? (fs.locate src ++ more) with
          | none =>
              have hkept := h.kept more he
              rw [hplace, List.append_assoc] at hkept
              exact hkept.trans hb
          | some e =>
              obtain rfl := FileSystem.eq_nil_of_below_file hc (by rw [he]; simp)
              exact absurd (Or.inr ⟨rfl, c, hc⟩) (hfree rfl)
        · exact hunchanged (h.rest _ hsrc hin)
  · have hdst : ¬ fs.locate dst ++ [name] <+: fs.locate dst ++ n :: below := by
      rw [List.prefix_append_right_inj, List.cons_prefix_cons]
      exact fun hp => hn hp.1.symm
    exact hunchanged (h.rest hname hsrc hdst)

end MovedInto

/-! ## One match after the other -/

open Setting (forEach)

/-- **Some matches have been moved into a directory**, in a disk that was `fs` at first: they are
gone, what is apart from them and from the directory is as it was, and where a directory has come to
stand under a name, a match was one. -/
structure Underway (dst : HostPath) (moved : List HostPath) (fs now : FileSystem) : Prop where
  plain : now.Plain
  home : now.home = fs.home
  gone : ∀ m ∈ moved, ∀ below, now.entryAt? (fs.locate m ++ below) = none
  rest : ∀ q, ¬ fs.locate dst <+: q → ¬ q <+: fs.locate dst →
    (∀ m ∈ moved, ¬ fs.locate m <+: q) → now.entryAt? q = fs.entryAt? q
  brought : ∀ name, now.entryAt? (fs.locate dst ++ [name]) = some .dir →
    ∃ m ∈ moved, m.fileName? = some name ∧ fs.entryAt? (fs.locate m) = some .dir

namespace Underway

variable {moved : List HostPath} {now now' : FileSystem} {m : HostPath} {name : String}

theorem start (hfs : fs.Plain) (hempty : ∀ name, fs.entryAt? (fs.locate dst ++ [name]) = none) :
    Underway dst [] fs fs where
  plain := hfs
  home := rfl
  gone m hm := by cases hm
  rest _ _ _ _ := rfl
  brought name hdir := by
    rw [hempty] at hdir
    cases hdir

theorem locate (h : Underway dst moved fs now) (p : HostPath) : now.locate p = fs.locate p :=
  FileSystem.locate_congr h.home p

/-- **A match that is still there is as it was at first**, with all that is below, if none of those
that are gone is deeper. -/
theorem source (h : Underway dst moved fs now)
    (hdisjoint : Place.Disjoint (fs.locate m) (fs.locate dst))
    (hdeep : ∀ other ∈ moved, (fs.locate other).length = (fs.locate m).length)
    (hthere : now.entryAt? (fs.locate m) ≠ none) (below : Place) :
    now.entryAt? (fs.locate m ++ below) = fs.entryAt? (fs.locate m ++ below) := by
  refine h.rest _ (Place.Disjoint.not_prefix_append ⟨hdisjoint.2, hdisjoint.1⟩ below)
    (fun hp => hdisjoint.1 ((List.prefix_append _ below).trans hp)) fun other hother hp => ?_
  -- what is as deep as the match and at or above something in it is the match itself
  obtain ⟨more, hmore⟩ := List.prefix_of_prefix_length_le hp (List.prefix_append _ below)
    (Nat.le_of_eq (hdeep other hother))
  have hnone := h.gone other hother more
  rw [hmore] at hnone
  exact hthere hnone

/-- What has gone stays gone, the next match included. -/
theorem gone_step (h : Underway dst moved fs now)
    (hdisjoint : ∀ other ∈ moved ++ [m], Place.Disjoint (fs.locate other) (fs.locate dst))
    (hname : IsPart name) (hmoved : MovedInto m dst name now now') :
    ∀ other ∈ moved ++ [m], ∀ below, now'.entryAt? (fs.locate other ++ below) = none := by
  intro other hother below
  have hfar := hdisjoint other hother
  by_cases hin : fs.locate m <+: fs.locate other ++ below
  · obtain ⟨more, hmore⟩ := hin
    rw [← hmore, ← h.locate m]
    exact hmoved.gone more
  · have hold : other ∈ moved := by
      refine (List.mem_append.1 hother).resolve_right fun hlast => hin ?_
      rw [List.mem_singleton.1 hlast]
      exact List.prefix_append _ _
    have hdst : ¬ fs.locate dst ++ [name] <+: fs.locate other ++ below := fun hp =>
      Place.Disjoint.not_prefix_append ⟨hfar.2, hfar.1⟩ below ((List.prefix_append _ _).trans hp)
    rw [← h.locate m] at hin
    rw [← h.locate dst] at hdst
    rcases hmoved.rest hname hin hdst with heq | ⟨hp, -⟩
    · rw [heq, h.gone other hold]
    · rw [h.locate] at hp
      exact absurd ((List.prefix_append _ below).trans hp) hfar.1

/-- A directory that stands under a name has been brought there, by the next match or before. -/
theorem brought_step (h : Underway dst moved fs now)
    (hdisjoint : Place.Disjoint (fs.locate m) (fs.locate dst))
    (hthere : now.entryAt? (fs.locate m) ≠ none)
    (hsame : now.entryAt? (fs.locate m) = fs.entryAt? (fs.locate m))
    (hname : m.fileName? = some name) (hmoved : MovedInto m dst name now now') {n : String}
    (hdir : now'.entryAt? (fs.locate dst ++ [n]) = some .dir) :
    ∃ other ∈ moved ++ [m], other.fileName? = some n
      ∧ fs.entryAt? (fs.locate other) = some .dir := by
  have hpart := HostPath.isPart_of_fileName? hname
  have hkeep : now.entryAt? (fs.locate dst ++ [n]) = some .dir →
      ∃ other ∈ moved ++ [m], other.fileName? = some n
        ∧ fs.entryAt? (fs.locate other) = some .dir := fun hbefore => by
    obtain ⟨other, hother, hfound⟩ := h.brought n hbefore
    exact ⟨other, by simp [hother], hfound⟩
  by_cases hn : n = name
  · subst hn
    obtain ⟨e, he⟩ := Option.ne_none_iff_exists'.1 hthere
    rcases h.plain.dir_or_file he with rfl | ⟨b, rfl⟩
    · exact ⟨m, by simp, hname, by rw [← hsame, he]⟩
    · -- a file does not bring a directory, so there was one already
      refine hkeep (by_contra fun hnot => ?_)
      have hfile : now'.entryAt? (now.locate dst ++ n :: []) = some (.file b) := by
        refine hmoved.arrives hpart (fun _ _ => ?_) ?_
        · rw [h.locate]
          exact hnot
        · rw [List.append_nil, h.locate, he]
      rw [h.locate, hdir] at hfile
      cases hfile
  · have hsrc : ¬ now.locate m <+: fs.locate dst ++ [n] := by
      rw [h.locate]
      exact hdisjoint.not_prefix_append _
    have hdst : ¬ now.locate dst ++ [name] <+: fs.locate dst ++ [n] := by
      rw [h.locate, List.prefix_append_right_inj, List.cons_prefix_cons]
      exact fun hp => hn hp.1.symm
    rcases hmoved.rest hpart hsrc hdst with heq | ⟨hp, -⟩
    · exact hkeep (heq ▸ hdir)
    · rw [h.locate] at hp
      have hlength := hp.length_le
      rw [List.length_append, List.length_singleton] at hlength
      omega

/-- **One more match is moved.** -/
theorem step (h : Underway dst moved fs now)
    (hdisjoint : ∀ other ∈ moved ++ [m], Place.Disjoint (fs.locate other) (fs.locate dst))
    (hthere : now.entryAt? (fs.locate m) ≠ none)
    (hsame : now.entryAt? (fs.locate m) = fs.entryAt? (fs.locate m))
    (hname : m.fileName? = some name) (hmoved : MovedInto m dst name now now') :
    Underway dst (moved ++ [m]) fs now' where
  plain := hmoved.plain
  home := hmoved.home.trans h.home
  gone := h.gone_step hdisjoint (HostPath.isPart_of_fileName? hname) hmoved
  rest q hbelow habove hout := by
    have hdst : ¬ now.locate dst ++ [name] <+: q := fun hp =>
      hbelow (h.locate dst ▸ (List.prefix_append _ _).trans hp)
    have hsrc : ¬ now.locate m <+: q := h.locate m ▸ hout m (by simp)
    rcases hmoved.rest (HostPath.isPart_of_fileName? hname) hsrc hdst with heq | ⟨hp, -⟩
    · rw [heq, h.rest q hbelow habove fun other hother => hout other (by simp [hother])]
    · exact absurd (h.locate dst ▸ hp) habove
  brought _ hdir := h.brought_step (hdisjoint m (by simp)) hthere hsame hname hmoved hdir

/-- **A match that is moved was as at first and arrives by its name.** -/
theorem move (h : Underway dst moved fs now) (hdots : ".." ∉ dst.steps)
    (hdisjoint : ∀ other ∈ moved ++ [m], Place.Disjoint (fs.locate other) (fs.locate dst))
    (hdeep : ∀ other ∈ moved, (fs.locate other).length = (fs.locate m).length)
    (hrun : moveEntry m (dst.into m) now = .ok () now') :
    ∃ name, m.fileName? = some name ∧ MovedInto m dst name now now'
      ∧ Underway dst (moved ++ [m]) fs now'
      ∧ ∀ below, now.entryAt? (fs.locate m ++ below) = fs.entryAt? (fs.locate m ++ below) := by
  have hfar := hdisjoint m (by simp)
  obtain ⟨-, hthere, -⟩ := endsInName_of_moveEntry h.plain hrun
  obtain ⟨name, hname, hmoved⟩ := moveEntry_into h.plain hdots
    (by rw [h.locate, h.locate]; exact hfar) hrun
  rw [h.locate] at hthere
  have hsource := h.source hfar hdeep hthere
  refine ⟨name, hname, hmoved, h.step hdisjoint hthere ?_ hname hmoved, hsource⟩
  have hroot := hsource []
  rwa [List.append_nil] at hroot

end Underway

/-- What is moved in one go: the place is apart from all matches, and these are equally deep. -/
structure Movable (fs : FileSystem) (dst : HostPath) (found : List HostPath) : Prop where
  no_dots : ".." ∉ dst.steps
  disjoint : ∀ m ∈ found, Place.Disjoint (fs.locate m) (fs.locate dst)
  deep : ∀ m ∈ found, ∀ other ∈ found, (fs.locate other).length = (fs.locate m).length

section

variable {moved before after ms : List HostPath} {now now' : FileSystem} {m : HostPath}

theorem Movable.next (hall : Movable fs dst (moved ++ m :: ms)) (h : Underway dst moved fs now)
    (hrun : moveEntry m (dst.into m) now = .ok () now') :
    ∃ name, m.fileName? = some name ∧ MovedInto m dst name now now'
      ∧ Underway dst (moved ++ [m]) fs now'
      ∧ ∀ below, now.entryAt? (fs.locate m ++ below) = fs.entryAt? (fs.locate m ++ below) := by
  refine h.move hall.no_dots (fun other hother => hall.disjoint other ?_)
    (fun other hother => hall.deep m (by simp) other (by simp [hother])) hrun
  rcases List.mem_append.1 hother with hold | hlast
  · simp [hold]
  · simp [List.mem_singleton.1 hlast]

/-- **Several matches are moved, one after the other.** -/
theorem Underway.run (hall : Movable fs dst (moved ++ ms ++ after))
    (h : Underway dst moved fs now)
    (hrun : forEach (fun p => moveEntry p (dst.into p)) ms now = .ok () now') :
    Underway dst (moved ++ ms) fs now' := by
  induction ms generalizing moved now with
  | nil =>
      cases hrun
      rwa [List.append_nil]
  | cons m rest ih =>
      obtain ⟨fs1, hmove, hrest⟩ := forEach_cons_eq_ok hrun
      have hsplit : moved ++ (m :: rest) ++ after = moved ++ m :: (rest ++ after) := by simp
      obtain ⟨-, -, -, hnext, -⟩ := (hsplit ▸ hall).next h hmove
      have hmore : moved ++ m :: rest = moved ++ [m] ++ rest := by simp
      rw [hmore] at hall ⊢
      exact ih hall hnext hrest

/-- **A file that has arrived stays if no later match overtakes it.** -/
theorem Underway.keeps (hall : Movable fs dst (moved ++ ms)) (h : Underway dst moved fs now)
    (hrun : forEach (fun p => moveEntry p (dst.into p)) ms now = .ok () now') {name : String}
    {below : Place} {b : ByteArray}
    (hb : now.entryAt? (fs.locate dst ++ name :: below) = some (.file b))
    (hfree : ∀ later ∈ ms, later.fileName? = some name → ¬ fs.Overtakes later name below) :
    now'.entryAt? (fs.locate dst ++ name :: below) = some (.file b) := by
  induction ms generalizing moved now with
  | nil =>
      cases hrun
      exact hb
  | cons m rest ih =>
      obtain ⟨fs1, hmove, hrest⟩ := forEach_cons_eq_ok hrun
      obtain ⟨n, hn, hmoved, hnext, hsource⟩ := hall.next h hmove
      have hmore : moved ++ m :: rest = moved ++ [m] ++ rest := by simp
      refine ih (hmore ▸ hall) hnext hrest ?_ fun later hlater =>
        hfree later (List.mem_cons_of_mem _ hlater)
      rw [← h.locate] at hb ⊢
      refine hmoved.stays h.plain (HostPath.isPart_of_fileName? hn) ?_ hb ?_
      · rw [h.locate, h.locate]
        exact hall.disjoint m (by simp)
      · rintro rfl hovertakes
        refine hfree m List.mem_cons_self hn ?_
        have hroot := hsource []
        rw [List.append_nil] at hroot
        rw [FileSystem.Overtakes, h.locate, hsource, hroot] at hovertakes
        exact hovertakes

/-- **Every file arrives under the name of its match** and stays there, unless a later match of the
name overtakes it, or it is a match itself and a directory of its name came before. -/
theorem forEach_move_keeps (hfs : fs.Plain)
    (hempty : ∀ name, fs.entryAt? (fs.locate dst ++ [name]) = none)
    (hall : Movable fs dst (before ++ m :: after))
    (hrun : forEach (fun p => moveEntry p (dst.into p)) (before ++ m :: after) fs = .ok () fs') :
    ∃ name, m.fileName? = some name ∧ ∀ below b,
      fs.entryAt? (fs.locate m ++ below) = some (.file b) →
      (∀ later ∈ after, later.fileName? = some name → ¬ fs.Overtakes later name below) →
      (below = [] → ∀ earlier ∈ before, earlier.fileName? = some name →
        fs.entryAt? (fs.locate earlier) ≠ some .dir) →
      fs'.entryAt? (fs.locate dst ++ name :: below) = some (.file b) := by
  obtain ⟨fs1, hfront, hback⟩ := forEach_append_eq_ok hrun
  obtain ⟨fs2, hmove, hrest⟩ := forEach_cons_eq_ok hback
  have hall' : Movable fs dst ([] ++ before ++ m :: after) := hall
  have hstart : Underway dst before fs fs1 := Underway.run hall' (.start hfs hempty) hfront
  obtain ⟨name, hname, hmoved, hnext, hsource⟩ := hall.next hstart hmove
  refine ⟨name, hname, fun below b hb hlater hearlier => ?_⟩
  have hsplit : before ++ m :: after = before ++ [m] ++ after := by simp
  refine hnext.keeps (hsplit ▸ hall) hrest ?_ hlater
  rw [← hstart.locate dst]
  refine hmoved.arrives (HostPath.isPart_of_fileName? hname) (fun c hc hdir => ?_) ?_
  · -- the match is a file, and a directory under its name would come from an earlier match
    have hroot := hsource []
    rw [List.append_nil, ← hstart.locate, hc] at hroot
    rw [hstart.locate] at hroot hdir
    have hbelow : below = [] :=
      FileSystem.eq_nil_of_below_file hroot.symm (by rw [hb]; simp)
    obtain ⟨other, hother, hsame, hwas⟩ := hstart.brought name hdir
    exact hearlier hbelow other hother hsame hwas
  · rw [hstart.locate, hsource, hb]

end

end FileAction

/-! ## How deep matches are -/

theorem Place.length_step (place : Place) (name : String) :
    (place.step name).length
      = if name = "." then place.length else if name = ".." then place.length - 1
        else place.length + 1 := by
  rw [Place.step]
  split
  · rfl
  · split
    · exact List.length_dropLast
    · rw [List.length_append, List.length_singleton]

namespace FileSystem

variable {fs : FileSystem} {d q pattern : HostPath} {name segment : String}
variable {matcher : String → Except GlobFault (String → Bool)} {dirsOnly : Bool}

theorem locate_child_eq_step (fs : FileSystem) (p : HostPath) (h : IsSegment name) :
    fs.locate (p.child name) = (fs.locate p).step name := by
  rw [locate, fs.origin_child p h, HostPath.steps_child p h, List.foldl_append, List.foldl_cons,
    List.foldl_nil, ← locate]

/-- How deep a hop goes is told by the segment. -/
theorem Hop.length_locate {rest : List String} (hfs : fs.Named) (hsegment : IsSegment segment)
    (h : fs.Hop matcher dirsOnly segment rest d name) :
    (fs.locate (d.child name)).length
      = if isPattern segment = true then (fs.locate d).length + 1
        else ((fs.locate d).step segment).length := by
  by_cases hpat : isPattern segment = true
  · have hthere := h.there
    rw [if_pos hpat] at hthere ⊢
    rw [fs.locate_child d (hfs.isName_of_mem_namesIn hthere).toIsPart, List.length_append,
      List.length_singleton]
  · rw [if_neg hpat, (admits_iff_of_plain hpat).1 h.admits, fs.locate_child_eq_step d hsegment]

/-- **All matches of a pattern are equally deep.** -/
theorem length_locate_of_mem_descend (hfs : fs.Named) {segments : List String}
    (hsegments : ∀ s ∈ segments, IsSegment s) {d' q' : HostPath}
    (hdeep : (fs.locate d').length = (fs.locate d).length)
    (hq : q ∈ (fs.descend matcher dirsOnly segments [d]).1)
    (hq' : q' ∈ (fs.descend matcher dirsOnly segments [d']).1) :
    (fs.locate q').length = (fs.locate q).length := by
  induction segments generalizing d d' with
  | nil =>
      rw [descend, List.mem_singleton] at hq hq'
      rw [hq, hq', hdeep]
  | cons segment rest ih =>
      obtain ⟨name, hhop, hq⟩ := mem_descend_cons.1 hq
      obtain ⟨name', hhop', hq'⟩ := mem_descend_cons.1 hq'
      have hsegment := hsegments segment List.mem_cons_self
      refine ih (fun s hs => hsegments s (List.mem_cons_of_mem _ hs)) ?_ hq hq'
      rw [hhop.length_locate hfs hsegment, hhop'.length_locate hfs hsegment, Place.length_step,
        Place.length_step, hdeep]

theorem length_locate_of_mem_expand (hfs : fs.Named) (hq : q ∈ (fs.expand pattern).1)
    {q' : HostPath} (hq' : q' ∈ (fs.expand pattern).1) :
    (fs.locate q').length = (fs.locate q).length := by
  rw [expand, expandWith] at hq hq'
  by_cases hp : isPattern pattern.text = true
  · rw [if_pos hp] at hq hq'
    exact length_locate_of_mem_descend hfs (fun s hs => HostPath.isSegment_of_mem_openSteps hs) rfl
      hq hq'
  · rw [if_neg hp, List.mem_singleton] at hq hq'
    rw [hq, hq']

end FileSystem

/-! ## A card with two files of one name -/

namespace Setting

def twinCard : FileSystem :=
  ((((FileSystem.empty []).setDir ["a"]).setFile ["a", "x"] ⟨#[49]⟩).setDir ["b"]).setFile
    ["b", "x"] ⟨#[50]⟩

theorem twinCard_plain : twinCard.Plain := by
  have hfirst : ((FileSystem.empty []).setDir ([] ++ ["a"])).Plain :=
    FileSystem.plain_empty.setDir rfl (by decide) rfl
  have hone : (((FileSystem.empty []).setDir ["a"]).setFile (["a"] ++ ["x"]) ⟨#[49]⟩).Plain :=
    hfirst.setFile rfl (by decide) (fun h => by cases h) _
  have hsecond : ((((FileSystem.empty []).setDir ["a"]).setFile ["a", "x"] ⟨#[49]⟩).setDir
      ([] ++ ["b"])).Plain := hone.setDir rfl (by decide) rfl
  have htwo : (((((FileSystem.empty []).setDir ["a"]).setFile ["a", "x"] ⟨#[49]⟩).setDir
      ["b"]).setFile (["b"] ++ ["x"]) ⟨#[50]⟩).Plain :=
    hsecond.setFile rfl (by decide) (fun h => by cases h) _
  exact htwo

theorem expand_twinCard :
    (twinCard.expand (onRootCard.locate "sdmc:/*/x")).1 = [⟨"/a/x"⟩, ⟨"/b/x"⟩] := by
  decide +kernel

theorem locate_twinCard_out : twinCard.locate (onRootCard.locate "sdmc:/out/") = ["out"] := by
  decide +kernel

theorem twinCard_first : twinCard.entryAt? (twinCard.locate ⟨"/a/x"⟩) = some (.file ⟨#[49]⟩) := by
  have hplace : twinCard.locate ⟨"/a/x"⟩ = ["a", "x"] := by decide +kernel
  rw [hplace]
  rfl

theorem twinCard_last : twinCard.entryAt? (twinCard.locate ⟨"/b/x"⟩) = some (.file ⟨#[50]⟩) := by
  have hplace : twinCard.locate ⟨"/b/x"⟩ = ["b", "x"] := by decide +kernel
  rw [hplace]
  rfl

theorem exists_moved_twinCard :
    ∃ w', onRootCard.move "sdmc:/*/x" "sdmc:/out/" (.ofFiles twinCard) = .ok () w' :=
  Action.exists_eq_ok_of_isOk _ _ (by decide +kernel)

/-! ## The command -/

variable {s : Setting} {w w' : World} {src dst : String}

theorem forEach_of_move_eq_ok (hp : isPattern (scriptPath src) = true)
    (h : s.move src dst w = .ok () w') :
    forEach (fun p => FileAction.moveEntry p ((s.locate dst).into p))
        (w.files.expand (s.locate src)).1 w.files = .ok () w'.files := by
  rw [move] at h
  by_cases hrefused : Guard.isDangerous (scriptPath src) = true
  · rw [if_pos hrefused] at h
    cases h
  · rw [if_neg hrefused, if_pos hp] at h
    exact forEach_of_expanded_eq_ok h

/-- **A pattern is moved to a vacant place** apart from all its matches. -/
structure ToVacant (s : Setting) (src dst : String) (fs : FileSystem) : Prop where
  pattern : isPattern (scriptPath src) = true
  vacant : ∀ below, below ≠ [] → fs.entryAt? (fs.locate (s.locate dst) ++ below) = none
  disjoint : ∀ m ∈ (fs.expand (s.locate src)).1,
    Place.Disjoint (fs.locate m) (fs.locate (s.locate dst))

/-- **A bulk move keeps every file that is not overtaken.** Each match has a name, and each file of
it is afterwards at the same place below that name in the directory, unless a later match of the
name overtakes it, or it is the match itself and a directory of its name has been moved before it. A
path that leads up again makes directories on its way that are not in question here, so there is
none. -/
theorem move_keeps_files (hfs : w.files.Plain) (hto : s.ToVacant src dst w.files)
    (hdots : ".." ∉ (s.locate dst).steps) (hrun : s.move src dst w = .ok () w') :
    ∀ before m after, (w.files.expand (s.locate src)).1 = before ++ m :: after →
      ∃ name, m.fileName? = some name ∧ ∀ below b,
        w.files.entryAt? (w.files.locate m ++ below) = some (.file b) →
        (∀ later ∈ after, later.fileName? = some name → ¬ w.files.Overtakes later name below) →
        (below = [] → ∀ earlier ∈ before, earlier.fileName? = some name →
          w.files.entryAt? (w.files.locate earlier) ≠ some .dir) →
        w'.files.entryAt? (w.files.locate (s.locate dst) ++ name :: below) = some (.file b) := by
  intro before m after hfound
  have hmoves := forEach_of_move_eq_ok hto.pattern hrun
  have hdisjoint := hto.disjoint
  rw [hfound] at hmoves hdisjoint
  exact FileAction.forEach_move_keeps hfs (fun name => hto.vacant [name] (by simp))
    ⟨hdots, hdisjoint, fun m hm other hother =>
      FileSystem.length_locate_of_mem_expand hfs.named (hfound ▸ hm) (hfound ▸ hother)⟩ hmoves

theorem twinCard_toVacant : onRootCard.ToVacant "sdmc:/*/x" "sdmc:/out/" twinCard where
  pattern := by decide +kernel
  vacant below _ := by
    rw [locate_twinCard_out]
    exact FileSystem.entryAt?_below_none rfl below
  disjoint m hm := by
    rw [expand_twinCard, List.mem_cons, List.mem_singleton] at hm
    rcases hm with rfl | rfl
    · exact ⟨by decide +kernel, by decide +kernel⟩
    · exact ⟨by decide +kernel, by decide +kernel⟩

/-- Of two files of one name, the one that is found last is in the directory afterwards. -/
theorem twinCard_move_keeps_last :
    ∃ w', onRootCard.move "sdmc:/*/x" "sdmc:/out/" (.ofFiles twinCard) = .ok () w'
      ∧ w'.files.entryAt? ["out", "x"] = some (.file ⟨#[50]⟩) := by
  obtain ⟨w', hrun⟩ := exists_moved_twinCard
  obtain ⟨name, hname, harrives⟩ := move_keeps_files (w := .ofFiles twinCard) twinCard_plain
    twinCard_toVacant (by decide +kernel) hrun [⟨"/a/x"⟩] ⟨"/b/x"⟩ [] expand_twinCard
  obtain rfl : "x" = name :=
    Option.some.inj ((by decide +kernel : HostPath.fileName? ⟨"/b/x"⟩ = some "x").symm.trans hname)
  have hkept := harrives [] ⟨#[50]⟩ (by rw [List.append_nil]; exact twinCard_last) (by simp)
    fun _ earlier hearlier _ hdir => by
      obtain rfl := List.mem_singleton.1 hearlier
      cases twinCard_first.symm.trans hdir
  refine ⟨w', hrun, ?_⟩
  have hout : w'.files.entryAt? (twinCard.locate (onRootCard.locate "sdmc:/out/") ++ ["x"])
      = some (.file ⟨#[50]⟩) := hkept
  rwa [locate_twinCard_out] at hout

/-- **Every file of every match arrives** at the same place below the name of its match. -/
def AllArrive (s : Setting) (src dst : String) (fs fs' : FileSystem) : Prop :=
  ∀ m ∈ (fs.expand (s.locate src)).1, ∃ name, m.fileName? = some name ∧ ∀ below b,
    fs.entryAt? (fs.locate m ++ below) = some (.file b) →
      fs'.entryAt? (fs.locate (s.locate dst) ++ name :: below) = some (.file b)

theorem AllArrive.file {fs fs' : FileSystem} (h : s.AllArrive src dst fs fs') {m : HostPath}
    (hm : m ∈ (fs.expand (s.locate src)).1) {name : String} (hname : m.fileName? = some name)
    {b : ByteArray} (hb : fs.entryAt? (fs.locate m) = some (.file b)) :
    fs'.entryAt? (fs.locate (s.locate dst) ++ [name]) = some (.file b) := by
  obtain ⟨other, hother, harrives⟩ := h m hm
  obtain rfl := Option.some.inj (hname.symm.trans hother)
  exact harrives [] b (by rw [List.append_nil]; exact hb)

/-- The directory that is made under the name of a file, on the way up again, stays there. -/
theorem exists_moved_around :
    ∃ w', onRootCard.move "sdmc:/a/*" "sdmc:/out/x/../" (.ofFiles twinCard) = .ok () w'
      ∧ w'.files.entryAt? ["out", "x"] = some .dir := by
  obtain ⟨w', hrun⟩ := Action.exists_eq_ok_of_isOk
    (onRootCard.move "sdmc:/a/*" "sdmc:/out/x/../") (.ofFiles twinCard) (by decide +kernel)
  have hmade : ((onRootCard.move "sdmc:/a/*" "sdmc:/out/x/../").filesAfter
      (.ofFiles twinCard)).isDirAt ["out", "x"] = true := by decide +kernel
  rw [Action.filesAfter, hrun] at hmade
  exact ⟨w', hrun, FileAction.isDirAt_iff.1 hmade⟩

/-- **Matches of one name do not all arrive**, since the last one stands there alone. Nor does a
single file, if the path of the directory leads up again from a directory that is made under its
name. -/
theorem move_does_not_keep_all :
    (¬ ∀ (s : Setting) (src dst : String) (w w' : World), w.files.Plain →
        Guard.isDangerous (scriptPath src) = false → s.ToVacant src dst w.files →
        ".." ∉ (s.locate dst).steps → s.move src dst w = .ok () w' →
        s.AllArrive src dst w.files w'.files)
      ∧ ¬ ∀ (s : Setting) (src dst : String) (w w' : World), w.files.Plain →
        Guard.isDangerous (scriptPath src) = false → s.ToVacant src dst w.files →
        ((w.files.expand (s.locate src)).1.map HostPath.fileName?).Nodup →
        s.move src dst w = .ok () w' → s.AllArrive src dst w.files w'.files := by
  have hx : HostPath.fileName? ⟨"/a/x"⟩ = some "x" := by decide +kernel
  constructor
  · intro hall
    obtain ⟨w', hrun⟩ := exists_moved_twinCard
    have harrive := hall _ _ _ (.ofFiles twinCard) w' twinCard_plain (by decide +kernel)
      twinCard_toVacant (by decide +kernel) hrun
    have hfirst := harrive.file (by rw [World.ofFiles, expand_twinCard]; simp) hx twinCard_first
    have hlast := harrive.file (by rw [World.ofFiles, expand_twinCard]; simp)
      (by decide +kernel : HostPath.fileName? ⟨"/b/x"⟩ = some "x") twinCard_last
    cases hfirst.symm.trans hlast
  · intro hall
    have hfound : (twinCard.expand (onRootCard.locate "sdmc:/a/*")).1 = [⟨"/a/x"⟩] := by
      decide +kernel
    have hplace : twinCard.locate (onRootCard.locate "sdmc:/out/x/../") = ["out"] := by
      decide +kernel
    have hto : onRootCard.ToVacant "sdmc:/a/*" "sdmc:/out/x/../" twinCard := by
      refine ⟨by decide +kernel, fun below _ => ?_, fun m hm => ?_⟩
      · rw [hplace]
        exact FileSystem.entryAt?_below_none rfl below
      · rw [hfound] at hm
        obtain rfl := List.mem_singleton.1 hm
        exact ⟨by decide +kernel, by decide +kernel⟩
    obtain ⟨w', hrun, hdir⟩ := exists_moved_around
    have harrive := hall _ _ _ (.ofFiles twinCard) w' twinCard_plain (by decide +kernel) hto
      (by decide +kernel) hrun
    have hfile : w'.files.entryAt?
        (twinCard.locate (onRootCard.locate "sdmc:/out/x/../") ++ ["x"]) = some (.file ⟨#[49]⟩) :=
      harrive.file (by rw [World.ofFiles, hfound]; simp) hx twinCard_first
    rw [hplace] at hfile
    cases hdir.symm.trans hfile

end Setting

end PackageScript
