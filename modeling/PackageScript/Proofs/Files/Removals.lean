import PackageScript.Proofs.Files.Emptied
import PackageScript.Proofs.Files.Matches
import PackageScript.Proofs.Files.Walks

set_option autoImplicit false

/-! # What is taken away stays away

A change that only takes away (`FileSystem.Shrinks`) opens no way: what a path leads to afterwards
it led to before, links included, and so a pattern expands to nothing that it did not expand to
before (`Shrinks.mem_expandWith`). Deleting is such a change, however it ends. If it returns, what
the path names is gone (`FileAction.deleteTreeTo_takes`), and no later deletion brings it back.
-/

namespace PackageScript

theorem Node.isDir_iff_entry {n : Node} : n.isDir = true ↔ n.entry = .dir := by
  cases n <;> simp [Node.isDir, Node.entry]

namespace FileSystem

variable {fs fs' fs'' : FileSystem} {p q d : HostPath} {place : Place} {name segment : String}

/-- **A change that only takes away.** -/
structure Shrinks (fs fs' : FileSystem) : Prop where
  home : fs'.home = fs.home
  entry : ∀ q, fs'.entryAt? q = fs.entryAt? q ∨ fs'.entryAt? q = none

theorem isDir_iff_stat :
    fs.isDir p = true ↔ ∃ place es, fs.stat p = .ok (place, .dir es) := by
  rw [isDir]
  constructor
  · intro h
    split at h
    · next place es hstat => exact ⟨place, es, hstat⟩
    · cases h
  · rintro ⟨place, es, hstat⟩
    rw [hstat]

theorem exists?_iff_stat : fs.exists? p = true ↔ ∃ found, fs.stat p = .ok found := by
  rw [exists?]
  cases fs.stat p with
  | ok found => exact ⟨fun _ => ⟨found, rfl⟩, fun _ => rfl⟩
  | error e =>
      refine ⟨fun h => (by cases h), ?_⟩
      rintro ⟨found, h⟩
      cases h

theorem resolve_withSlash (hslash : p.endsWithSlash = false) :
    fs.resolve .withSlash p = fs.resolve .never p := by
  rw [resolve, resolve, hslash]

namespace Shrinks

theorem refl (fs : FileSystem) : Shrinks fs fs := ⟨rfl, fun _ => Or.inl rfl⟩

theorem trans (h : Shrinks fs fs') (h' : Shrinks fs' fs'') : Shrinks fs fs'' where
  home := h'.home.trans h.home
  entry q := by
    rcases h'.entry q with heq | hnone
    · rw [heq]
      exact h.entry q
    · exact Or.inr hnone

theorem eq_of_ne_none (h : Shrinks fs fs') {q : Place} (hq : fs'.entryAt? q ≠ none) :
    fs'.entryAt? q = fs.entryAt? q :=
  (h.entry q).resolve_right hq

theorem eq_some (h : Shrinks fs fs') {q : Place} {e : Entry} (hq : fs'.entryAt? q = some e) :
    fs.entryAt? q = some e := by
  rw [← h.eq_of_ne_none (by rw [hq]; simp), hq]

theorem named (h : Shrinks fs fs') (hfs : fs.Named) : fs'.Named := by
  intro place name hne
  rw [h.eq_of_ne_none hne] at hne
  exact hfs place name hne

theorem erase (fs : FileSystem) (place : Place) : Shrinks fs (fs.erase place) := by
  refine ⟨rfl, fun q => ?_⟩
  by_cases hbelow : place <+: q
  · obtain ⟨below, rfl⟩ := hbelow
    rcases List.eq_nil_or_concat place with rfl | ⟨dir, name, rfl⟩
    · -- the root is not taken away
      have hroot : fs.root.erase [] = fs.root := by cases fs.root <;> rfl
      exact Or.inl (congrArg (fun root => root.entryAt? ([] ++ below)) hroot)
    · right
      rw [entryAt?, FileSystem.erase, Node.entryAt?, List.concat_eq_append, List.append_assoc,
        List.singleton_append, Node.get?_erase_append, Option.map_none]
  · exact Or.inl (Node.entryAt?_erase_of_not_below hbelow)

/-! ## Questions -/

theorem walks (h : Shrinks fs fs') {follow slash : Bool} {links : Nat} {names : List String}
    {spot : Spot} (hway : fs'.Walks follow links slash place names spot)
    (hends : fs'.entryAt? spot.place ≠ none) : fs.Walks follow links slash place names spot := by
  induction hway with
  | here => exact .here
  | dot hname _ ih => exact .dot hname (ih hends)
  | dots hname _ ih => exact .dots hname (ih hends)
  | dir hstep hdir _ ih => exact .dir hstep (h.eq_some hdir) (ih hends)
  | link hstep hlink hgo _ ih => exact .link hstep (h.eq_some hlink) hgo (ih hends)
  | last hstep hnot hnolink =>
      rw [h.eq_of_ne_none hends] at hnot hnolink
      exact .last hstep hnot hnolink

theorem find (h : Shrinks fs fs') {mode : Follow} {node' : Node}
    (hfind : fs'.find mode p = .ok (place, node')) :
    ∃ node, fs.find mode p = .ok (place, node) ∧ node.entry = node'.entry := by
  obtain ⟨spot, hresolve, rfl, hnode', hslash⟩ := find_eq_ok_iff_resolve.1 hfind
  obtain ⟨husable, horigin, hway⟩ := resolve_eq_ok_iff_walks.1 hresolve
  have hentry' : fs'.entryAt? spot.place = some node'.entry := by
    rw [entryAt?_eq_map, hnode', Option.map_some]
  have hentry := h.eq_some hentry'
  rw [entryAt?_eq_map] at hentry
  obtain ⟨node, hnode, heq⟩ := Option.map_eq_some_iff.1 hentry
  refine ⟨node, find_eq_ok_iff_resolve.2 ⟨spot, ?_, rfl, hnode, fun hs => ?_⟩, heq⟩
  · rw [origin_congr h.home] at horigin hway
    exact resolve_eq_ok_iff_walks.2
      ⟨husable, h.eq_some horigin, h.walks hway (by rw [hentry']; simp)⟩
  · rw [Node.isDir_iff_entry, heq, ← Node.isDir_iff_entry]
    exact hslash hs

theorem stat_dir (h : Shrinks fs fs') {es' : List (String × Node)}
    (hstat : fs'.stat p = .ok (place, .dir es')) : ∃ es, fs.stat p = .ok (place, .dir es) := by
  obtain ⟨node, hfind, hentry⟩ := h.find hstat
  cases node with
  | dir es => exact ⟨es, hfind⟩
  | file b => cases hentry
  | link t => cases hentry

theorem isDir (h : Shrinks fs fs') (hdir : fs'.isDir p = true) : fs.isDir p = true := by
  obtain ⟨place, es', hstat⟩ := isDir_iff_stat.1 hdir
  obtain ⟨es, hstat⟩ := h.stat_dir hstat
  exact isDir_iff_stat.2 ⟨place, es, hstat⟩

theorem exists? (h : Shrinks fs fs') (hexists : fs'.exists? p = true) : fs.exists? p = true := by
  obtain ⟨⟨place, node'⟩, hstat⟩ := exists?_iff_stat.1 hexists
  obtain ⟨node, hfind, -⟩ := h.find hstat
  exact exists?_iff_stat.2 ⟨_, hfind⟩

theorem holds (h : Shrinks fs fs') (hholds : fs'.Holds d name) : fs.Holds d name := by
  obtain ⟨place, es', hstat, hentry⟩ := hholds
  obtain ⟨es, hstat⟩ := h.stat_dir hstat
  rw [h.eq_of_ne_none hentry] at hentry
  exact ⟨place, es, hstat, hentry⟩

/-! ## Patterns -/

variable {matcher : String → Except GlobFault (String → Bool)} {dirsOnly : Bool}

theorem hop (h : Shrinks fs fs') {rest : List String}
    (hhop : fs'.Hop matcher dirsOnly segment rest d name) :
    fs.Hop matcher dirsOnly segment rest d name := by
  refine ⟨hhop.admits, ?_, fun hmore => h.isDir (hhop.kept hmore)⟩
  have hthere := hhop.there
  by_cases hpat : isPattern segment = true
  · rw [if_pos hpat, mem_namesIn_iff_holds] at hthere ⊢
    exact h.holds hthere
  · rw [if_neg hpat] at hthere ⊢
    exact h.exists? hthere

theorem mem_descend (h : Shrinks fs fs') {segments : List String}
    (hq : q ∈ (fs'.descend matcher dirsOnly segments [d]).1) :
    q ∈ (fs.descend matcher dirsOnly segments [d]).1 := by
  induction segments generalizing d with
  | nil => exact hq
  | cons segment rest ih =>
      obtain ⟨name, hhop, hrest⟩ := mem_descend_cons.1 hq
      exact mem_descend_cons.2 ⟨name, h.hop hhop, ih hrest⟩

/-- **Taking away adds no match.** -/
theorem mem_expandWith (h : Shrinks fs fs') (hq : q ∈ (fs'.expandWith matcher p).1) :
    q ∈ (fs.expandWith matcher p).1 := by
  rw [expandWith] at hq ⊢
  split at hq
  · next hpat =>
      rw [if_pos hpat]
      exact h.mem_descend hq
  · next hpat =>
      rw [if_neg hpat]
      exact hq

end Shrinks

/-! ## What is gone -/

/-- **A path that can be looked up and names nothing**, not even a link. -/
structure Gone (fs : FileSystem) (p : HostPath) : Prop where
  missing : ∀ found, fs.lstat p ≠ .ok found
  no_nul : '\x00' ∉ p.text.toList
  short : p.text.utf8ByteSize < pathLimit

theorem Gone.mono (h : fs.Gone p) (hshrinks : Shrinks fs fs') : fs'.Gone p := by
  refine ⟨fun found hfound => ?_, h.no_nul, h.short⟩
  obtain ⟨node, hfind, -⟩ := hshrinks.find hfound
  exact h.missing _ hfind

/-- What is not found was looked for. -/
theorem gone_of_notFound (h : fs.lstat p = .error .notFound) : fs.Gone p := by
  have hresolve : ∀ e, e ≠ .notFound → fs.resolve .withSlash p ≠ .error e := by
    intro e he hr
    rw [lstat, FileSystem.find, hr] at h
    exact he (Except.error.inj h)
  have hnul : '\x00' ∉ p.text.toList := fun hnul =>
    hresolve .nulInPath (by decide) (by rw [resolve, if_pos (by simpa using hnul)])
  refine ⟨fun found hfound => ?_, hnul, ?_⟩
  · rw [h] at hfound
    cases hfound
  · by_contra hlong
    have hempty : p.text ≠ "" := by
      intro hempty
      rw [hempty] at hlong
      exact hlong (by decide)
    refine hresolve .nameTooLong (by decide) ?_
    rw [resolve, if_neg (by simpa using hnul), if_neg (by simpa using hempty),
      if_pos (Nat.not_lt.1 hlong)]

end FileSystem

namespace FileAction

open FileSystem (Shrinks Gone)
open Setting (forEach)

variable {fs fs' : FileSystem}

/-- What stands where a path leads is taken away, below the root. -/
def Takes (p : HostPath) (fs fs' : FileSystem) : Prop :=
  ∃ spot, fs.resolve .never p = .ok spot ∧ spot.place ≠ [] ∧ fs' = fs.erase spot.place

theorem Takes.shrinks {p : HostPath} (h : Takes p fs fs') : Shrinks fs fs' := by
  obtain ⟨spot, -, -, rfl⟩ := h
  exact .erase fs spot.place

theorem Takes.gone {p : HostPath} (h : Takes p fs fs') (hslash : p.endsWithSlash = false) :
    fs'.Gone p := by
  have hshrinks := h.shrinks
  obtain ⟨spot, hresolve, hbelow, rfl⟩ := h
  obtain ⟨husable, hway⟩ := FileSystem.resolve_eq_ok_iff_walks.1 hresolve
  refine ⟨?_, husable.no_nul, husable.short⟩
  rintro ⟨place, node'⟩ hfound
  -- the path led to the same place before, and nothing stands there now
  obtain ⟨node, hbefore, -⟩ := hshrinks.find hfound
  obtain ⟨other, hother, rfl, -⟩ := FileSystem.find_eq_ok_iff_resolve.1 hbefore
  obtain ⟨other', hother', hplace, hnode, -⟩ := FileSystem.find_eq_ok_iff_resolve.1 hfound
  have hsame : other = spot := by
    rw [FileSystem.resolve_withSlash hslash, hresolve] at hother
    exact (Except.ok.inj hother).symm
  obtain ⟨dir, name, hplaceEq⟩ := List.eq_nil_or_concat spot.place |>.resolve_left hbelow
  have hgone : (fs.erase spot.place).node? spot.place = none := by
    rw [hplaceEq, List.concat_eq_append]
    exact Node.get?_erase_append fs.root dir name []
  rw [hsame, hgone] at hnode
  cases hnode

theorem root_dir_of_resolve {mode : Follow} {p : HostPath} {spot : Spot}
    (h : fs.resolve mode p = .ok spot) : fs.entryAt? [] = some .dir := by
  obtain ⟨-, horigin, -⟩ := FileSystem.resolve_eq_ok_iff_walks.1 h
  by_cases hroot : fs.origin p = []
  · rw [hroot] at horigin
    exact horigin
  · exact FileSystem.dir_of_prefix List.nil_prefix (Ne.symm hroot) (by rw [horigin]; simp)

theorem removeFile_takes (p : HostPath) :
    Ends (removeFile p) fs (fun _ fs' => Takes p fs fs') (fun _ fs' => fs' = fs) := by
  rw [Ends, removeFile]
  cases hresolve : fs.resolve .never p with
  | error e => rfl
  | ok spot =>
      dsimp only
      cases hnode : fs.node? spot.place with
      | none => rfl
      | some node =>
          have htaken : node.isDir = false → Takes p fs (fs.erase spot.place) := by
            intro hnot
            refine ⟨spot, hresolve, fun hnil => ?_, rfl⟩
            obtain ⟨es, hes⟩ := FileSystem.entryAt?_eq_dir_iff.1 (root_dir_of_resolve hresolve)
            rw [hnil, hes] at hnode
            cases hnode
            cases hnot
          cases node with
          | dir es => rfl
          | file b =>
              cases p.endsWithSlash with
              | true => rfl
              | false => exact htaken rfl
          | link t =>
              cases p.endsWithSlash with
              | true => rfl
              | false => exact htaken rfl

theorem removeDir_takes (p : HostPath) :
    Ends (removeDir p) fs (fun _ fs' => Takes p fs fs') (fun _ fs' => fs' = fs) := by
  unfold Ends
  cases hrun : removeDir p fs with
  | error e fs' =>
      -- no way to fail has changed anything
      unfold removeDir at hrun
      repeat' split at hrun
      all_goals cases hrun
      all_goals rfl
  | ok a fs' =>
      unfold removeDir at hrun
      split at hrun
      · cases hrun
      · next spot hresolve =>
          split at hrun
          · cases hrun
          · cases hrun
          · cases hrun
          · next name hdot hdots hlast =>
              -- the path ends in a name, so that the way does not end at the root
              obtain ⟨-, -, hway⟩ := FileSystem.resolve_eq_ok_iff_walks.1 hresolve
              have hbelow := hway.place_ne_nil hlast hdot hdots
              split at hrun
              · cases hrun
              · cases hrun
                exact ⟨spot, hresolve, hbelow, rfl⟩
              · cases hrun
              · cases hrun

/-! ## Deletions -/

/-- What each of some actions keeps, however it ends, all of them keep. -/
theorem forEach_ends {R : FileSystem → FileSystem → Prop} (hrefl : ∀ fs, R fs fs)
    (htrans : ∀ fs fs' fs'', R fs fs' → R fs' fs'' → R fs fs'')
    {act : HostPath → FileAction Unit} {paths : List HostPath}
    (hact : ∀ p ∈ paths, ∀ fs, Ends (act p) fs (fun _ fs' => R fs fs') (fun _ fs' => R fs fs'))
    (fs : FileSystem) :
    Ends (forEach act paths) fs (fun _ fs' => R fs fs') (fun _ fs' => R fs fs') := by
  induction paths generalizing fs with
  | nil => exact hrefl fs
  | cons p rest ih =>
      rw [forEach]
      refine Ends.bind ((hact p List.mem_cons_self fs).mono (fun _ fs1 h1 => ?_) fun _ _ h => h)
      exact (ih (fun q hq => hact q (List.mem_cons_of_mem _ hq)) fs1).mono
        (fun _ _ h => htrans _ _ _ h1 h) fun _ _ h => htrans _ _ _ h1 h

/-- **A deletion only takes away, and if it returns, what its path names is gone.** -/
theorem deleteTreeTo_takes (depth : Nat) (p : HostPath) (fs : FileSystem) :
    Ends (deleteTreeTo depth p) fs
      (fun _ fs' => Shrinks fs fs' ∧ (p.endsWithSlash = false → fs'.Gone p))
      (fun _ fs' => Shrinks fs fs') := by
  induction depth generalizing fs p with
  | zero => exact Shrinks.refl fs
  | succ depth ih =>
      dsimp only [Ends, deleteTreeTo]
      cases hstat : fs.lstat p with
      | error e =>
          cases e with
          | notFound => exact ⟨.refl fs, fun _ => FileSystem.gone_of_notFound hstat⟩
          | _ => exact Shrinks.refl fs
      | ok found =>
          obtain ⟨place, node⟩ := found
          have hremove : Ends (removeFile p) fs
              (fun _ fs' => Shrinks fs fs' ∧ (p.endsWithSlash = false → fs'.Gone p))
              (fun _ fs' => Shrinks fs fs') := by
            refine (removeFile_takes p).mono (fun _ _ h => ⟨h.shrinks, h.gone⟩) ?_
            rintro _ _ rfl
            exact .refl _
          cases node with
          | file b => exact hremove
          | link t => exact hremove
          | dir es =>
              dsimp only
              cases hlist : fs.readDir p with
              | error e => exact Shrinks.refl fs
              | ok entries =>
                  -- the entries go first, and then the directory, if it is empty by now
                  have hinside : Ends (deleteEntries (deleteTreeTo depth) p entries) fs
                      (fun _ fs' => Shrinks fs fs') (fun _ fs' => Shrinks fs fs') := by
                    rw [deleteEntries_eq_forEach]
                    exact forEach_ends Shrinks.refl (fun _ _ _ => Shrinks.trans)
                      (fun q _ fs => (ih q fs).mono (fun _ _ h => h.1) fun _ _ h => h) fs
                  dsimp only
                  cases hrun : deleteEntries (deleteTreeTo depth) p entries fs with
                  | error e fs1 => exact hinside.of_error hrun
                  | ok _ fs1 =>
                      have h1 := hinside.of_ok hrun
                      refine (removeDir_takes p).mono
                        (fun _ _ h => ⟨h1.trans h.shrinks, h.gone⟩) ?_
                      rintro _ _ rfl
                      exact h1

theorem forEach_cons_eq_ok {act : HostPath → FileAction Unit} {p : HostPath}
    {rest : List HostPath} (h : forEach act (p :: rest) fs = .ok () fs') :
    ∃ fs1, act p fs = .ok () fs1 ∧ forEach act rest fs1 = .ok () fs' := by
  obtain ⟨⟨⟩, fs1, hact, hrest⟩ := bind_eq_ok_iff.1 h
  exact ⟨fs1, hact, hrest⟩

theorem forEach_append_eq_ok {act : HostPath → FileAction Unit} {before after : List HostPath}
    (h : forEach act (before ++ after) fs = .ok () fs') :
    ∃ fs1, forEach act before fs = .ok () fs1 ∧ forEach act after fs1 = .ok () fs' := by
  induction before generalizing fs with
  | nil => exact ⟨fs, rfl, h⟩
  | cons p rest ih =>
      obtain ⟨fs1, hact, hrest⟩ := forEach_cons_eq_ok h
      obtain ⟨fs2, hfront, hback⟩ := ih hrest
      exact ⟨fs2, bind_eq_ok_iff.2 ⟨(), fs1, hact, hfront⟩, hback⟩

/-- Deletions one after the other leave nothing of what they were asked to delete. -/
theorem forEach_deleteTree_gone {paths : List HostPath}
    (hslash : ∀ p ∈ paths, p.endsWithSlash = false)
    (hrun : forEach deleteTree paths fs = .ok () fs') :
    Shrinks fs fs' ∧ ∀ p ∈ paths, fs'.Gone p := by
  induction paths generalizing fs with
  | nil =>
      cases hrun
      exact ⟨.refl _, fun p hp => by cases hp⟩
  | cons p rest ih =>
      obtain ⟨fs1, hfirst, hrest⟩ := forEach_cons_eq_ok hrun
      obtain ⟨h1, hgone⟩ := (deleteTreeTo_takes pathLimit p fs).of_ok hfirst
      obtain ⟨h2, hothers⟩ := ih (fun q hq => hslash q (List.mem_cons_of_mem _ hq)) hrest
      exact ⟨h1.trans h2, List.forall_mem_cons.2
        ⟨(hgone (hslash p List.mem_cons_self)).mono h2, hothers⟩⟩

end FileAction

end PackageScript
