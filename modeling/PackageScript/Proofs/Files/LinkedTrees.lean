import PackageScript.Proofs.Files.Growth
import PackageScript.Proofs.Files.Mirrors

set_option autoImplicit false

/-! # Deleting trees with links in them

A link is an entry like any other to a deletion, wherever it leads. What could lead the deletion
astray is its own path: a link on the way, a `..` behind one, or a slash behind the last name,
which makes the operating system follow it. A path without these (`HostPath.Direct`,
`FileSystem.Straight`) leads to the place that its names spell, if it leads anywhere
(`Straight.place_eq`), and to whatever stands there (`HostPath.Direct.resolve`). The paths of the
entries of a directory that is found are such paths again, whatever they are, since everything
above them is a directory. So one induction on the depth tells all that a deletion does
(`FileAction.deleteTreeTo_cuts`): it takes nothing but what is at or below the place, all of it if
it returns, and it returns unless some path in the tree is too long to be opened.
-/

namespace PackageScript

namespace FileSystem

variable {fs fs' fs'' : FileSystem} {p : HostPath} {place : Place} {name : String}
variable {slash : Bool} {links : Nat} {names : List String} {spot : Spot}

/-! ## Ways without links -/

theorem Named.isName_of_below (hfs : fs.Named) {below : Place}
    (h : fs.entryAt? (place ++ below) ≠ none) : ∀ n ∈ below, IsName n := by
  intro n hn
  obtain ⟨front, behind, rfl⟩ := List.append_of_mem hn
  refine hfs (place ++ front) n fun hnone => h ?_
  have hsplit : place ++ (front ++ n :: behind) = place ++ front ++ [n] ++ behind := by simp
  rw [hsplit]
  exact entryAt?_below_none hnone behind

theorem dir_of_append {below : Place} (hne : below ≠ [])
    (h : fs.entryAt? (place ++ below) ≠ none) : fs.entryAt? place = some .dir := by
  obtain ⟨name, rest, rfl⟩ := List.exists_cons_of_ne_nil hne
  exact dir_of_below h

theorem filter_ne_nil_of_getLast? (hne : names ≠ []) (hlast : names.getLast? ≠ some ".") :
    names.filter (· != ".") ≠ [] := by
  refine List.ne_nil_of_mem (List.mem_filter.2 ⟨List.getLast_mem hne, ?_⟩)
  rw [bne_iff_ne]
  exact fun h => hlast (by rw [List.getLast?_eq_some_getLast hne, h])

/-- A way without a link and without `..` ends where its names say. -/
theorem Walks.place_of_no_link (h : fs.Walks false links slash place names spot)
    (hdots : ".." ∉ names)
    (hway : ∀ front behind, names = front ++ behind → behind ≠ [] →
      ∀ target, fs.entryAt? (front.foldl Place.step place) ≠ some (.link target)) :
    spot = ⟨names.foldl Place.step place, slash⟩ := by
  have hbehind : ∀ {place : Place} {name : String} {rest : List String},
      (∀ front behind, name :: rest = front ++ behind → behind ≠ [] →
        ∀ target, fs.entryAt? (front.foldl Place.step place) ≠ some (.link target)) →
      ∀ front behind, rest = front ++ behind → behind ≠ [] →
        ∀ target, fs.entryAt? (front.foldl Place.step (place.step name)) ≠ some (.link target) :=
    fun hway front behind heq => hway (_ :: front) behind (by rw [heq, List.cons_append])
  have hstay : ∀ {place : Place} {name : String}, IsStep name →
      place.step name = place ++ [name] := fun hstep => by
    rw [Place.step, if_neg hstep.ne_dot, if_neg hstep.ne_dots]
  induction h with
  | here => rfl
  | dot hname _ ih =>
      have hway := hbehind hway
      rw [Place.step, if_pos hname] at hway
      rw [ih (fun h => hdots (List.mem_cons_of_mem _ h)) hway, List.foldl_cons, Place.step,
        if_pos hname]
  | dots hname _ _ => exact absurd (hname ▸ List.mem_cons_self) hdots
  | dir hstep _ _ ih =>
      have hway := hbehind hway
      rw [hstay hstep] at hway
      rw [ih (fun h => hdots (List.mem_cons_of_mem _ h)) hway, List.foldl_cons, hstay hstep]
  | @link links slash place name target rest spot hstep hlink hgo _ _ =>
      -- the last name is not followed, so that more names come behind this one
      have hrest : rest ≠ [] := hgo.resolve_right (by simp)
      refine absurd hlink ?_
      rw [← hstay hstep]
      exact hway [name] rest rfl hrest target
  | last hstep _ _ => rw [List.foldl_cons, List.foldl_nil, hstay hstep]

/-- Names lead to what stands at the place that they spell, whatever it is, if they do not go up and
the last of them is not `.`. -/
theorem walks_of_there (hfs : fs.Named) (hdots : ".." ∉ names) (hlast : names.getLast? ≠ some ".")
    (hthere : fs.entryAt? (names.foldl Place.step place) ≠ none) :
    fs.Walks false links slash place names ⟨names.foldl Place.step place, slash⟩ := by
  induction names generalizing place with
  | nil => exact .here
  | cons name rest ih =>
      have hdots' : ".." ∉ rest := fun h => hdots (List.mem_cons_of_mem _ h)
      have hlast' : rest.getLast? ≠ some "." := by
        intro h
        rw [List.getLast?_cons, h] at hlast
        exact hlast rfl
      by_cases hdot : name = "."
      · have hstep : place.step name = place := by rw [Place.step, if_pos hdot]
        rw [List.foldl_cons, hstep] at hthere ⊢
        exact .dot hdot (ih hdots' hlast' hthere)
      have hstep : place.step name = place ++ [name] := by
        rw [Place.step, if_neg hdot, if_neg]
        rintro rfl
        exact hdots List.mem_cons_self
      rw [List.foldl_cons, hstep] at hthere ⊢
      have hspelled := Place.foldl_step_of_dots_not_mem hdots' (place ++ [name])
      have hentry : fs.entryAt? (place ++ [name]) ≠ none := fun hnone =>
        hthere (by rw [hspelled]; exact entryAt?_below_none hnone _)
      have hname := IsStep.of_isName (hfs place name hentry)
      by_cases hdir : fs.entryAt? (place ++ [name]) = some .dir
      · exact .dir hname hdir (ih hdots' hlast' hthere)
      -- what is not a directory has nothing behind it
      have hrest : rest = [] := by
        refine Decidable.byContradiction fun hne => hdir ?_
        rw [hspelled] at hthere
        exact dir_of_append (filter_ne_nil_of_getLast? hne hlast') hthere
      subst hrest
      exact .last hname hdir fun h => by cases h

end FileSystem

/-! ## Paths that lead straight to an entry -/

/-- **A path that ends in the name of an entry**, without a slash behind it, and never goes up. -/
structure HostPath.Direct (p : HostPath) : Prop where
  endsInName : FileAction.endsInName p = true
  no_slash : p.endsWithSlash = false
  no_dots : ".." ∉ p.steps

theorem HostPath.Direct.child {p : HostPath} {name : String} (hdots : ".." ∉ p.steps)
    (hname : IsPart name) : (p.child name).Direct where
  endsInName := by
    rw [FileAction.endsInName, p.steps_child hname.toIsSegment, List.getLast?_concat]
    simp [hname.ne_dot, hname.ne_dots]
  no_slash := p.endsWithSlash_child hname.toIsSegment
  no_dots := HostPath.dots_not_mem_steps_child hdots hname

/-- **No link stands on the way to the last name of a path.** -/
def FileSystem.Straight (fs : FileSystem) (p : HostPath) : Prop :=
  ∀ front behind, p.steps = front ++ behind → behind ≠ [] →
    ∀ target, fs.entryAt? (front.foldl Place.step (fs.origin p)) ≠ some (.link target)

namespace FileSystem

variable {fs fs' fs'' : FileSystem} {p : HostPath} {place : Place} {name : String} {spot : Spot}

/-- **A straight path leads nowhere but to the place that it spells.** -/
theorem Straight.place_eq (h : fs.Straight p) (hp : p.Direct)
    (hresolve : fs.resolve .never p = .ok spot) : spot.place = fs.locate p := by
  obtain ⟨-, -, hway⟩ := resolve_eq_ok_iff_walks.1 hresolve
  rw [Walks.place_of_no_link hway hp.no_dots h, locate]

end FileSystem

namespace HostPath.Direct

open FileSystem (Named Usable)

variable {fs : FileSystem} {p : HostPath}

theorem getLast?_ne_dot (hp : p.Direct) : p.steps.getLast? ≠ some "." := by
  intro h
  have hends := hp.endsInName
  rw [FileAction.endsInName, h] at hends
  cases hends

theorem steps_ne_nil (hp : p.Direct) : p.steps ≠ [] := by
  intro hnil
  have hends := hp.endsInName
  rw [FileAction.endsInName, hnil] at hends
  cases hends

theorem locate_eq_append (hp : p.Direct) (fs : FileSystem) :
    ∃ below, below ≠ [] ∧ fs.locate p = fs.origin p ++ below :=
  ⟨_, FileSystem.filter_ne_nil_of_getLast? hp.steps_ne_nil hp.getLast?_ne_dot,
    Place.foldl_step_of_dots_not_mem hp.no_dots _⟩

theorem locate_eq_concat (hp : p.Direct) (fs : FileSystem) :
    ∃ dir name, fs.locate p = dir ++ [name] := by
  obtain ⟨below, hne, hplace⟩ := hp.locate_eq_append fs
  obtain ⟨front, name, rfl⟩ := (List.eq_nil_or_concat below).resolve_left hne
  exact ⟨fs.origin p ++ front, name, by rw [hplace, List.concat_eq_append, List.append_assoc]⟩

theorem text_ne_empty (hp : p.Direct) : p.text ≠ "" := fun hempty =>
  hp.steps_ne_nil (by rw [HostPath.steps_eq, hempty]; rfl)

theorem usable (hp : p.Direct) (hfs : fs.Named) (hthere : fs.entryAt? (fs.locate p) ≠ none)
    (hshort : p.text.utf8ByteSize < pathLimit) : FileSystem.Usable p := by
  refine ⟨fun hnul => ?_, hp.text_ne_empty, hshort⟩
  obtain ⟨name, hname, hmem⟩ := Text.exists_name_of_mem hnul (by decide)
  rw [← HostPath.steps_eq] at hname
  have hdot : name ≠ "." := by
    rintro rfl
    exact absurd hmem (by decide)
  rw [FileSystem.locate, Place.foldl_step_of_dots_not_mem hp.no_dots] at hthere
  have hin : name ∈ p.steps.filter (· != ".") :=
    List.mem_filter.2 ⟨hname, by rwa [bne_iff_ne]⟩
  exact (hfs.isName_of_below hthere name hin).no_nul hmem

/-- **A path leads to what stands at the place that it spells**, if it is not too long. -/
theorem resolve (hp : p.Direct) (hfs : fs.Named) (hthere : fs.entryAt? (fs.locate p) ≠ none)
    (hshort : p.text.utf8ByteSize < pathLimit) :
    fs.resolve .never p = .ok ⟨fs.locate p, false⟩ := by
  have horigin : fs.entryAt? (fs.origin p) = some .dir := by
    obtain ⟨below, hne, hplace⟩ := hp.locate_eq_append fs
    rw [hplace] at hthere
    exact FileSystem.dir_of_append hne hthere
  refine FileSystem.resolve_eq_ok_iff_walks.2 ⟨hp.usable hfs hthere hshort, horigin, ?_⟩
  rw [hp.no_slash]
  exact FileSystem.walks_of_there hfs hp.no_dots hp.getLast?_ne_dot hthere

theorem lstat (hp : p.Direct) (hfs : fs.Named) {node : Node}
    (hnode : fs.node? (fs.locate p) = some node) (hshort : p.text.utf8ByteSize < pathLimit) :
    fs.lstat p = .ok (fs.locate p, node) := by
  have hthere : fs.entryAt? (fs.locate p) ≠ none := by
    rw [FileSystem.entryAt?_eq_map, hnode]
    simp
  have hresolve := hp.resolve hfs hthere hshort
  rw [← FileSystem.resolve_withSlash hp.no_slash] at hresolve
  rw [FileSystem.lstat, FileSystem.find_of_resolve hresolve hnode]
  rfl

theorem readDir (hp : p.Direct) (hfs : fs.Named) {es : List (String × Node)}
    (hnode : fs.node? (fs.locate p) = some (.dir es)) (hshort : p.text.utf8ByteSize < pathLimit) :
    fs.readDir p = .ok (es.map fun e => (e.1, e.2.entry)) := by
  have hdir : fs.entryAt? (fs.locate p) = some .dir := FileSystem.entryAt?_eq_dir_iff.2 ⟨es, hnode⟩
  have hresolve := FileSystem.resolve_always_of_never
    (hp.resolve hfs (by rw [hdir]; simp) hshort) (by rw [hdir]; simp)
  have hstat : fs.stat p = .ok (fs.locate p, .dir es) := by
    rw [FileSystem.stat, FileSystem.find_of_resolve hresolve hnode]
    rfl
  rw [FileSystem.readDir, hstat]

/-- Everything above an entry is a directory, so no link is on the way to it. -/
theorem straight (hp : p.Direct) (hthere : fs.entryAt? (fs.locate p) ≠ none) :
    fs.Straight p := by
  intro front behind hsteps hbehind target hlink
  have hdots := hp.no_dots
  rw [hsteps, List.mem_append, not_or] at hdots
  have hplace : fs.locate p
      = front.foldl Place.step (fs.origin p) ++ behind.filter (· != ".") := by
    rw [FileSystem.locate, hsteps, List.foldl_append, Place.foldl_step_of_dots_not_mem hdots.2]
  have hlast : behind.getLast? ≠ some "." := by
    have hlast := hp.getLast?_ne_dot
    rwa [hsteps, List.getLast?_append_of_ne_nil _ hbehind] at hlast
  rw [hplace] at hthere
  have hdir := FileSystem.dir_of_append (FileSystem.filter_ne_nil_of_getLast? hbehind hlast) hthere
  rw [hlink] at hdir
  cases hdir

/-- The entry that such a path leads to is removed, if it is not a directory. -/
theorem removeFile (hp : p.Direct) (hfs : fs.Named) {node : Node}
    (hnode : fs.node? (fs.locate p) = some node) (hnot : node.isDir = false)
    (hshort : p.text.utf8ByteSize < pathLimit) :
    FileAction.removeFile p fs = .ok () (fs.erase (fs.locate p)) := by
  have hthere : fs.entryAt? (fs.locate p) ≠ none := by
    rw [FileSystem.entryAt?_eq_map, hnode]
    simp
  rw [FileAction.removeFile, hp.resolve hfs hthere hshort]
  dsimp only
  rw [hnode]
  cases node with
  | dir es => cases hnot
  | file b => simp [hp.no_slash]
  | link t => simp [hp.no_slash]

theorem removeDir (hp : p.Direct) (hfs : fs.Named)
    (hnode : fs.node? (fs.locate p) = some (.dir []))
    (hshort : p.text.utf8ByteSize < pathLimit) :
    FileAction.removeDir p fs = .ok () (fs.erase (fs.locate p)) := by
  have hthere : fs.entryAt? (fs.locate p) ≠ none := by
    rw [FileSystem.entryAt?_eq_map, hnode]
    simp
  have hends := hp.endsInName
  rw [FileAction.endsInName] at hends
  rw [FileAction.removeDir, hp.resolve hfs hthere hshort]
  dsimp only
  split
  · next heq => simp [heq] at hends
  · next heq => simp [heq] at hends
  · next heq => simp [heq] at hends
  · rw [hnode]

end HostPath.Direct

namespace FileSystem

variable {fs fs' fs'' : FileSystem} {p : HostPath} {place top : Place} {name : String}

/-! ## What a deletion takes -/

theorem mem_listing_iff {es : List (String × Node)} (hnode : fs.node? place = some (.dir es))
    {e : Entry} :
    (name, e) ∈ es.map (fun e => (e.1, e.2.entry)) ↔ fs.entryAt? (place ++ [name]) = some e := by
  have hordered : (Node.dir es).Ordered := fs.ordered.get? hnode
  have hentry : fs.entryAt? (place ++ [name]) = (es.lookup name).map Node.entry := by
    rw [entryAt?_append_eq, hnode, Option.bind_some, Node.entryAt?_cons, Node.child?, Node.entries]
    cases es.lookup name <;> simp [Node.entryAt?]
  rw [hentry, Option.map_eq_some_iff, List.mem_map]
  constructor
  · rintro ⟨⟨k, c⟩, hmem, heq⟩
    obtain ⟨rfl, rfl⟩ := Prod.mk.inj heq
    exact ⟨c, hordered.lookup_eq_some_iff.2 hmem, rfl⟩
  · rintro ⟨c, hc, rfl⟩
    exact ⟨(name, c), hordered.lookup_eq_some_iff.1 hc, rfl⟩

/-- **A change that takes away at or below one place**, and nowhere else. -/
structure Cuts (top : Place) (fs fs' : FileSystem) : Prop extends Shrinks fs fs' where
  rest : ∀ q, ¬ top <+: q → fs'.entryAt? q = fs.entryAt? q

namespace Cuts

theorem refl (top : Place) (fs : FileSystem) : Cuts top fs fs := ⟨.refl fs, fun _ _ => rfl⟩

theorem trans (h : Cuts top fs fs') (h' : Cuts top fs' fs'') : Cuts top fs fs'' :=
  ⟨h.toShrinks.trans h'.toShrinks, fun q hq => (h'.rest q hq).trans (h.rest q hq)⟩

theorem mono {inner : Place} (h : Cuts inner fs fs') (htop : top <+: inner) : Cuts top fs fs' :=
  ⟨h.toShrinks, fun q hq => h.rest q fun hp => hq (htop.trans hp)⟩

theorem erase (fs : FileSystem) (top : Place) : Cuts top fs (fs.erase top) :=
  ⟨.erase fs top, fun _ hq => Node.entryAt?_erase_of_not_below hq⟩

theorem around (h : Cuts (place ++ [name]) fs fs') : fs'.entryAt? place = fs.entryAt? place := by
  refine h.rest place fun hp => ?_
  have hlength := hp.length_le
  rw [List.length_append, List.length_singleton] at hlength
  omega

theorem beside (h : Cuts (place ++ [name]) fs fs') {other : String} (hne : other ≠ name)
    (below : Place) :
    fs'.entryAt? (place ++ other :: below) = fs.entryAt? (place ++ other :: below) := by
  refine h.rest _ fun hp => ?_
  rw [List.prefix_append_right_inj, List.cons_prefix_cons] at hp
  exact hne hp.1.symm

end Cuts

/-- A directory that has lost all that it listed is empty. -/
theorem Shrinks.empty_of_gone (h : Shrinks fs fs') {es : List (String × Node)}
    (hnode : fs.node? place = some (.dir es))
    (hstays : fs'.entryAt? place = fs.entryAt? place)
    (hgone : ∀ e ∈ es.map (fun e => (e.1, e.2.entry)), fs'.entryAt? (place ++ [e.1]) = none) :
    fs'.node? place = some (.dir []) := by
  rw [entryAt?_eq_dir_iff.2 ⟨es, hnode⟩] at hstays
  obtain ⟨left, hleft⟩ := entryAt?_eq_dir_iff.1 hstays
  rw [hleft]
  cases left with
  | nil => rfl
  | cons entry rest =>
      obtain ⟨name, c⟩ := entry
      have hentry := (mem_listing_iff hleft).1
        (List.mem_map_of_mem (List.mem_cons_self : (name, c) ∈ (name, c) :: rest))
      have hlisted := (mem_listing_iff hnode).2 (h.eq_some hentry)
      rw [hgone _ hlisted] at hentry
      cases hentry

theorem InReach.shrinks (h : fs.InReach p) (hshrinks : Shrinks fs fs') : fs'.InReach p := by
  intro below hne
  rw [hshrinks.eq_of_ne_none hne, locate_congr hshrinks.home] at hne
  exact h below hne

theorem InReach.congr (h : fs'.InReach p) (hplace : fs'.locate p = fs.locate p)
    (hsame : ∀ below, fs'.entryAt? (fs.locate p ++ below) = fs.entryAt? (fs.locate p ++ below)) :
    fs.InReach p := by
  intro below hne
  rw [← hsame, ← hplace] at hne
  exact h below hne

/-- What is not a directory is within reach if its own path is. -/
theorem InReach.of_not_dir (hnot : fs.entryAt? (fs.locate p) ≠ some .dir)
    (hshort : p.text.utf8ByteSize < pathLimit) : fs.InReach p := by
  intro below hne
  have hnil : below = [] := Decidable.byContradiction fun hbelow =>
    hnot (dir_of_append hbelow hne)
  rwa [hnil]

theorem InReach.short (h : fs.InReach p) (hthere : fs.entryAt? (fs.locate p) ≠ none) :
    p.text.utf8ByteSize < pathLimit := h [] (by rwa [List.append_nil])

end FileSystem

namespace FileAction

open FileSystem (Cuts)

variable {fs : FileSystem} {p : HostPath}

/-- **An action cuts off the tree at a path**: it takes nothing else, all of the tree if it returns,
and it returns just if the tree is within reach. -/
def CutsOff (act : FileAction Unit) (p : HostPath) (fs : FileSystem) : Prop :=
  Ends act fs
    (fun _ fs' => Cuts (fs.locate p) fs fs' ∧ fs'.entryAt? (fs.locate p) = none ∧ fs.InReach p)
    (fun _ fs' => Cuts (fs.locate p) fs fs' ∧ ¬ fs.InReach p)

/-- **What a deletion of some depth is relied on for.** A path below another is longer, so that the
depth is enough where the depth and the length of the path together are. -/
def CutsTrees (depth : Nat) : Prop :=
  ∀ (fs : FileSystem) (p : HostPath), pathLimit ≤ depth + p.text.utf8ByteSize → fs.Named →
    p.Direct → fs.entryAt? (fs.locate p) ≠ none → CutsOff (deleteTreeTo depth p) p fs

/-- **Entries of a directory are cut off one after the other**, each as it was at first, since the
ones before are not above it. -/
theorem deleteEntries_cuts {depth : Nat} (hcuts : CutsTrees depth)
    (hdepth : pathLimit ≤ depth + 1 + p.text.utf8ByteSize) (hdots : ".." ∉ p.steps)
    {entries : List (String × Entry)} (hnodup : (entries.map Prod.fst).Nodup) (hfs : fs.Named)
    (hthere : ∀ e ∈ entries, fs.entryAt? (fs.locate p ++ [e.1]) ≠ none) :
    Ends (deleteEntries (deleteTreeTo depth) p entries) fs
      (fun _ fs' => Cuts (fs.locate p) fs fs'
        ∧ fs'.entryAt? (fs.locate p) = fs.entryAt? (fs.locate p)
        ∧ ∀ e ∈ entries, fs'.entryAt? (fs.locate p ++ [e.1]) = none ∧ fs.InReach (p.child e.1))
      (fun _ fs' => Cuts (fs.locate p) fs fs' ∧ ¬ fs.InReach p) := by
  induction entries generalizing fs with
  | nil => exact ⟨.refl _ fs, rfl, fun e he => by cases he⟩
  | cons entry rest ih =>
      obtain ⟨name, e⟩ := entry
      have hentry := hthere (name, e) List.mem_cons_self
      have hname := hfs (fs.locate p) name hentry
      have hplace := fs.locate_child p hname.toIsPart
      have hnames := List.nodup_cons.1 hnodup
      have hne : ∀ e' ∈ rest, e'.1 ≠ name := fun e' he' heq =>
        hnames.1 (List.mem_map.2 ⟨e', he', heq⟩)
      -- the path of the entry is longer, which pays for the level below
      have hlonger := p.size_child hname.toIsSegment
      have hfirst := hcuts fs (p.child name) (by omega) hfs (.child hdots hname.toIsPart)
        (by rwa [hplace])
      rw [CutsOff, hplace] at hfirst
      refine Ends.bind (hfirst.mono ?_ ?_)
      · rintro - fs1 ⟨hcut, hgone, hreach⟩
        have hlocate : fs1.locate p = fs.locate p := FileSystem.locate_congr hcut.home p
        have hrest := ih hnames.2 (hcut.named hfs) fun e' he' => by
          rw [hlocate, hcut.beside (hne e' he')]
          exact hthere e' (List.mem_cons_of_mem _ he')
        rw [hlocate] at hrest
        have htop := hcut.mono (List.prefix_append (fs.locate p) [name])
        refine hrest.mono ?_ ?_
        · rintro - fs2 ⟨hcut2, hstays, hgone2⟩
          refine ⟨htop.trans hcut2, hstays.trans hcut.around, fun e' he' => ?_⟩
          rcases List.mem_cons.1 he' with rfl | he'
          · refine ⟨?_, hreach⟩
            rcases hcut2.entry (fs.locate p ++ [name]) with heq | hnone
            · rw [heq, hgone]
            · exact hnone
          · obtain ⟨hnone, hreach'⟩ := hgone2 e' he'
            have hpart := (hfs _ e'.1 (hthere e' (List.mem_cons_of_mem _ he'))).toIsPart
            -- the cut of the first entry has left this one as it was
            refine ⟨hnone, hreach'.congr (FileSystem.locate_congr hcut.home _) fun below => ?_⟩
            rw [fs.locate_child p hpart, List.append_assoc, List.singleton_append]
            exact hcut.beside (hne e' he') below
        · rintro - fs2 ⟨hcut2, hfar⟩
          exact ⟨htop.trans hcut2, fun hreach => hfar (hreach.shrinks hcut.toShrinks)⟩
      · rintro - fs1 ⟨hcut, hfar⟩
        exact ⟨hcut.mono (List.prefix_append _ _),
          fun hreach => hfar (hreach.child hname.toIsPart)⟩

/-- A path that is too long is not found, and not said to be missing either. -/
theorem lstat_of_long (fs : FileSystem) (hne : p.text ≠ "")
    (hlong : pathLimit ≤ p.text.utf8ByteSize) :
    ∃ e, e ≠ .notFound ∧ fs.lstat p = .error e := by
  have hempty : p.text.isEmpty = false := by simpa using hne
  by_cases hnul : p.text.toList.contains '\x00' = true
  · exact ⟨.nulInPath, by simp, by rw [FileSystem.lstat, FileSystem.find, FileSystem.resolve,
      if_pos hnul]⟩
  · exact ⟨.nameTooLong, by simp, by rw [FileSystem.lstat, FileSystem.find, FileSystem.resolve,
      if_neg hnul, if_neg (by rw [hempty]; simp), if_pos hlong]⟩

theorem entryAt?_erase_direct (hp : p.Direct) (fs fs' : FileSystem) :
    (fs'.erase (fs.locate p)).entryAt? (fs.locate p) = none := by
  obtain ⟨dir, name, hplace⟩ := hp.locate_eq_concat fs
  rw [hplace, FileSystem.entryAt?_erase_below, if_pos List.prefix_rfl]

/-- A tree whose own path is too long is out of reach, and is left as it is. -/
theorem deleteTreeTo_of_long (depth : Nat) (hp : p.Direct)
    (hthere : fs.entryAt? (fs.locate p) ≠ none) (hlong : pathLimit ≤ p.text.utf8ByteSize) :
    CutsOff (deleteTreeTo depth p) p fs := by
  have hfar : ¬ fs.InReach p := fun hreach =>
    absurd (hreach.short hthere) (Nat.not_lt.2 hlong)
  cases depth with
  | zero => exact ⟨.refl _ fs, hfar⟩
  | succ depth =>
      obtain ⟨e, hne, hstat⟩ := lstat_of_long fs hp.text_ne_empty hlong
      have hfails : deleteTreeTo (depth + 1) p fs = .error e fs := by
        dsimp only [deleteTreeTo]
        rw [hstat]
        cases e with
        | notFound => exact absurd rfl hne
        | _ => rfl
      exact ends_of_error hfails ⟨.refl _ fs, hfar⟩

theorem removeFile_cutsOff (hp : p.Direct) (hfs : fs.Named) {node : Node}
    (hnode : fs.node? (fs.locate p) = some node) (hnot : node.isDir = false)
    (hshort : p.text.utf8ByteSize < pathLimit) : CutsOff (removeFile p) p fs := by
  refine ends_of_ok (hp.removeFile hfs hnode hnot hshort)
    ⟨.erase fs _, entryAt?_erase_direct hp fs fs, .of_not_dir (fun hdir => ?_) hshort⟩
  obtain ⟨es, hes⟩ := FileSystem.entryAt?_eq_dir_iff.1 hdir
  rw [hnode] at hes
  cases hes
  cases hnot

/-- A directory is cut off by removing it behind its entries. -/
theorem deleteDir_cutsOff {depth : Nat} (hcuts : CutsTrees depth)
    (hdepth : pathLimit ≤ depth + 1 + p.text.utf8ByteSize) (hp : p.Direct) (hfs : fs.Named)
    {es : List (String × Node)} (hnode : fs.node? (fs.locate p) = some (.dir es))
    (hshort : p.text.utf8ByteSize < pathLimit) : CutsOff (deleteTreeTo (depth + 1) p) p fs := by
  have hnodup : ((es.map fun e => (e.1, e.2.entry)).map Prod.fst).Nodup := by
    rw [List.map_map]
    exact (fs.ordered.get? hnode : (Node.dir es).Ordered).nodup
  have hinside := deleteEntries_cuts hcuts hdepth hp.no_dots hnodup hfs fun e he => by
    rw [(FileSystem.mem_listing_iff hnode).1 he]
    simp
  dsimp only [CutsOff, Ends, deleteTreeTo]
  rw [hp.lstat hfs hnode hshort]
  dsimp only
  rw [hp.readDir hfs hnode hshort]
  dsimp only
  cases hrun : deleteEntries (deleteTreeTo depth) p (es.map fun e => (e.1, e.2.entry)) fs with
  | error e fs1 => exact hinside.of_error hrun
  | ok _ fs1 =>
      obtain ⟨hcut, hstays, hempty⟩ := hinside.of_ok hrun
      have hlocate : fs1.locate p = fs.locate p := FileSystem.locate_congr hcut.home p
      have hlast := hp.removeDir (hcut.named hfs) (by
        rw [hlocate]
        exact hcut.empty_of_gone hnode hstays fun e he => (hempty e he).1) hshort
      rw [hlocate] at hlast
      refine ends_of_ok hlast ⟨hcut.trans (.erase fs1 _), entryAt?_erase_direct hp fs fs1, ?_⟩
      refine .of_children hfs hshort fun n hn => ?_
      obtain ⟨e, he⟩ := Option.ne_none_iff_exists'.1 hn
      exact (hempty (n, e) ((FileSystem.mem_listing_iff hnode).2 he)).2

/-- **A deletion cuts off the tree at its path**, links in it being entries like any other. -/
theorem deleteTreeTo_cuts (depth : Nat) : CutsTrees depth := by
  induction depth with
  | zero =>
      intro fs p hdepth _ hp hthere
      exact deleteTreeTo_of_long 0 hp hthere (by omega)
  | succ depth ih =>
      intro fs p hdepth hfs hp hthere
      by_cases hlong : pathLimit ≤ p.text.utf8ByteSize
      · exact deleteTreeTo_of_long (depth + 1) hp hthere hlong
      have hshort := Nat.lt_of_not_le hlong
      obtain ⟨node, hnode⟩ :=
        Option.ne_none_iff_exists'.1 (mt FileSystem.entryAt?_eq_none_iff.2 hthere)
      have hremove : node.isDir = false → CutsOff (removeFile p) p fs := fun hnot =>
        removeFile_cutsOff hp hfs hnode hnot hshort
      cases node with
      | dir es => exact deleteDir_cutsOff ih hdepth hp hfs hnode hshort
      | file b =>
          dsimp only [CutsOff, Ends, deleteTreeTo]
          rw [hp.lstat hfs hnode hshort]
          exact hremove rfl
      | link t =>
          dsimp only [CutsOff, Ends, deleteTreeTo]
          rw [hp.lstat hfs hnode hshort]
          exact hremove rfl

theorem deleteTree_cuts (hfs : fs.Named) (hp : p.Direct)
    (hthere : fs.entryAt? (fs.locate p) ≠ none) : CutsOff (deleteTree p) p fs :=
  deleteTreeTo_cuts pathLimit fs p (Nat.le_add_right _ _) hfs hp hthere

/-- Where nothing stands a deletion changes nothing. -/
theorem deleteTreeTo_of_missing (depth : Nat) (hp : p.Direct) (hway : fs.Straight p)
    (hnone : fs.entryAt? (fs.locate p) = none) : (deleteTreeTo depth p).after fs = fs := by
  cases depth with
  | zero => rfl
  | succ depth =>
      dsimp only [after, deleteTreeTo]
      cases hstat : fs.lstat p with
      | error e => cases e <;> rfl
      | ok found =>
          obtain ⟨place, node⟩ := found
          obtain ⟨spot, hresolve, rfl, hnode, -⟩ := FileSystem.find_eq_ok_iff_resolve.1 hstat
          rw [FileSystem.resolve_withSlash hp.no_slash] at hresolve
          rw [hway.place_eq hp hresolve, FileSystem.entryAt?_eq_none_iff.1 hnone] at hnode
          cases hnode

/-- **Deleting a tree is exact and follows no link.** Let a path end in the name of an entry, go up
nowhere and meet no link on its way, wherever else there are links and wherever they lead. If
something stands at its place, then the deletion takes it away with all that is below, and it
returns, unless some path of the tree is too long to be opened. If nothing stands there, nothing
changes. However the deletion ends, what is neither there nor below is as it was. -/
theorem deleteTree_exact (hfs : fs.Named) (hp : p.Direct) (hway : fs.Straight p) :
    (fs.entryAt? (fs.locate p) ≠ none → fs.InReach p →
        ∃ fs', deleteTree p fs = .ok () fs'
          ∧ ∀ below, fs'.entryAt? (fs.locate p ++ below) = none)
      ∧ (fs.entryAt? (fs.locate p) ≠ none → ¬ fs.InReach p → returns (deleteTree p) fs = false)
      ∧ (fs.entryAt? (fs.locate p) = none → (deleteTree p).after fs = fs)
      ∧ ((deleteTree p).after fs).home = fs.home
      ∧ ∀ q, ¬ fs.locate p <+: q → ((deleteTree p).after fs).entryAt? q = fs.entryAt? q := by
  by_cases hthere : fs.entryAt? (fs.locate p) = none
  · have hsame := deleteTreeTo_of_missing pathLimit hp hway hthere
    rw [← deleteTree] at hsame
    refine ⟨fun h => absurd hthere h, fun h => absurd hthere h, fun _ => hsame, ?_, fun q _ => ?_⟩
    · rw [hsame]
    · rw [hsame]
  have hcuts := deleteTree_cuts hfs hp hthere
  have hafter : Cuts (fs.locate p) fs ((deleteTree p).after fs) :=
    (hcuts.mono (fun _ _ h => h.1) fun _ _ h => h.1).after
  refine ⟨fun _ hreach => ?_, fun _ hfar => ?_, fun h => absurd h hthere, hafter.home, hafter.rest⟩
  · cases hrun : deleteTree p fs with
    | ok a fs' =>
        refine ⟨fs', rfl, fun below => ?_⟩
        exact FileSystem.entryAt?_below_none (hcuts.of_ok hrun).2.1 below
    | error e fs' => exact absurd hreach (hcuts.of_error hrun).2
  · cases hreturns : returns (deleteTree p) fs with
    | false => rfl
    | true =>
        obtain ⟨a, fs', hrun⟩ := returns_iff.1 hreturns
        exact absurd (hcuts.of_ok hrun).2.2 hfar

/-- A directory with a file in it and a link from there to the root. -/
def loopedFolder : FileSystem := folder.setLink ["d", "l"] "/"

theorem loopedFolder_named : loopedFolder.Named := by
  have hlinked : (folder.setLink (["d"] ++ ["l"]) "/").Named :=
    folder_plain.named.setLink rfl (by decide) (fun h => by cases h) "/"
  exact hlinked

/-- The directory is deleted with the link, and the root that the link leads to is not. -/
theorem loopedFolder_deleted :
    loopedFolder.Named ∧ HostPath.Direct ⟨"/d"⟩ ∧ loopedFolder.Straight ⟨"/d"⟩
      ∧ loopedFolder.entryAt? ["d", "l"] = some (.link "/")
      ∧ ((deleteTree ⟨"/d"⟩).after loopedFolder).entryAt? [] = some .dir
      ∧ ∃ fs', deleteTree ⟨"/d"⟩ loopedFolder = .ok () fs' ∧ fs'.entryAt? ["d"] = none := by
  have hplace : loopedFolder.locate ⟨"/d"⟩ = ["d"] := by decide +kernel
  have hthere : loopedFolder.entryAt? (loopedFolder.locate ⟨"/d"⟩) ≠ none := by
    rw [hplace]
    exact fun h => by cases h
  have hp : HostPath.Direct ⟨"/d"⟩ := ⟨by decide +kernel, by decide +kernel, by decide +kernel⟩
  obtain ⟨hgone, hstops, -, -, hrest⟩ :=
    deleteTree_exact loopedFolder_named hp (hp.straight hthere)
  have hreach : loopedFolder.InReach ⟨"/d"⟩ := by
    by_contra hfar
    have hreturns : returns (deleteTree ⟨"/d"⟩) loopedFolder = true := by decide +kernel
    rw [hstops hthere hfar] at hreturns
    cases hreturns
  obtain ⟨fs', hrun, hnone⟩ := hgone hthere hreach
  rw [hplace] at hnone hrest
  refine ⟨loopedFolder_named, hp, hp.straight hthere, rfl, ?_, fs', hrun, hnone []⟩
  rw [hrest [] (by decide)]
  rfl

/-- There are paths so long that they lead to the folder, but the file in it is out of their
reach. -/
theorem exists_folder_out_of_reach :
    ∃ p : HostPath, p.Direct ∧ folder.entryAt? (folder.locate p) ≠ none ∧ ¬ folder.InReach p := by
  have hd : IsPart "d" := (by decide : IsName "d").toIsPart
  have ha : IsPart "a" := (by decide : IsName "a").toIsPart
  have hplace : folder.locate ((HostPath.rootDots 2046).child "d") = ["d"] := by
    rw [folder.locate_child _ hd, folder.locate_rootDots, List.nil_append]
  refine ⟨(HostPath.rootDots 2046).child "d", .child (HostPath.dots_not_mem_rootDots _) hd, ?_,
    fun hreach => ?_⟩
  · rw [hplace]
    exact fun h => by cases h
  · have hshort := hreach ["a"] (by
      rw [hplace]
      exact fun h => by cases h)
    rw [List.foldl_cons, List.foldl_nil] at hshort
    have hrooted : (((HostPath.rootDots 2046).child "d").child "a").isRooted = true := by
      rw [HostPath.isRooted_child _ ha.toIsSegment, HostPath.isRooted_child _ hd.toIsSegment,
        HostPath.isRooted_rootDots]
    have hwidth := HostPath.width_le_of_rootDots hrooted (by
      rw [HostPath.steps_child _ ha.toIsSegment, HostPath.steps_child _ hd.toIsSegment,
        List.append_assoc])
    have hlast : Text.width (["d"] ++ ["a"]) = 4 := rfl
    have hlimit : pathLimit = 4096 := rfl
    omega

/-- **A tree with a path that is too long is not deleted**, though there is an entry at the path
that is to be deleted and nothing else is in the way. -/
theorem deleteTree_of_long_path_stops :
    ¬ ∀ (fs : FileSystem) (p : HostPath), fs.Named → p.Direct → fs.Straight p →
      fs.entryAt? (fs.locate p) ≠ none →
      ∃ fs', deleteTree p fs = .ok () fs' ∧ fs'.entryAt? (fs.locate p) = none := by
  intro hall
  obtain ⟨p, hp, hthere, hfar⟩ := exists_folder_out_of_reach
  obtain ⟨fs', hrun, -⟩ := hall folder p folder_plain.named hp (hp.straight hthere) hthere
  exact hfar ((deleteTree_cuts folder_plain.named hp hthere).of_ok hrun).2.2

end FileAction

end PackageScript
