import PackageScript.Proofs.Files.Growth
import PackageScript.Proofs.Files.Move

set_option autoImplicit false

/-! # Replacing a file where there are links

A file is copied in five steps: its source is opened, the directories around its new path are made,
what stands at the path is taken away, an empty file is made, and the bytes are written. How it ends
is told by the file system in front of the fourth step (`FileSystem.readied`): the file can be made
if the path is vacant there, and then only a directory as the source fails
(`FileAction.copyFile_ends_readied`).

If a copy returns, its file stands where the path leads, and nothing else has changed but that
directories were made on the way, whatever links lead to the source or to the new path
(`FileAction.copyFile_replaces`). If it fails, the path names what it named before, apart from the
three cases of `FileSystem.Harms`.
-/

namespace PackageScript

namespace FileSystem

variable {fs fs' : FileSystem} {p src dst : HostPath} {place : Place} {spot : Spot}
variable {entry : Entry} {found : Place × Entry} {b : ByteArray}

/-! ## What a path names -/

/-- What a path names and where, a link at its end being the link itself. -/
def seen? (fs : FileSystem) (p : HostPath) : Option (Place × Entry) :=
  match fs.lstat p with
  | .ok (place, node) => some (place, node.entry)
  | .error _ => none

theorem seen?_eq_some_iff :
    fs.seen? p = some (place, entry)
      ↔ ∃ node, fs.lstat p = .ok (place, node) ∧ node.entry = entry := by
  rw [seen?]
  cases fs.lstat p with
  | error e => simp
  | ok found => simp [Prod.ext_iff, and_assoc]

theorem seen?_cases (fs : FileSystem) (p : HostPath) :
    fs.seen? p = none ∨ (∃ place, fs.seen? p = some (place, .dir))
      ∨ ∃ place entry, fs.seen? p = some (place, entry) ∧ entry ≠ .dir := by
  cases hseen : fs.seen? p with
  | none => exact Or.inl rfl
  | some found =>
      obtain ⟨place, entry⟩ := found
      by_cases hdir : entry = .dir
      · exact Or.inr (Or.inl ⟨place, by rw [hdir]⟩)
      · exact Or.inr (Or.inr ⟨place, entry, rfl, hdir⟩)

theorem isNonDir_eq_false_of_none (h : fs.seen? p = none) : fs.isNonDir p = false := by
  rw [FileSystem.seen?] at h
  rw [isNonDir]
  cases hstat : fs.lstat p with
  | error e => rfl
  | ok found =>
      rw [hstat] at h
      cases h

theorem isNonDir_iff_of_seen? (h : fs.seen? p = some (place, entry)) :
    fs.isNonDir p = true ↔ entry ≠ .dir := by
  obtain ⟨node, hfind, rfl⟩ := seen?_eq_some_iff.1 h
  rw [isNonDir, hfind]
  cases node <;> simp [Node.entry]

theorem Fills.seen? (h : Fills fs fs') (hseen : fs.seen? p = some found) :
    fs'.seen? p = some found := by
  obtain ⟨node, hfind, hentry⟩ := seen?_eq_some_iff.1 hseen
  obtain ⟨node', hfind', heq⟩ := h.find hfind
  exact seen?_eq_some_iff.2 ⟨node', hfind', heq.trans hentry⟩

theorem Shrinks.seen? (h : Shrinks fs fs') (hseen : fs'.seen? p = some found) :
    fs.seen? p = some found := by
  obtain ⟨node', hfind', hentry⟩ := seen?_eq_some_iff.1 hseen
  obtain ⟨node, hfind, heq⟩ := h.find hfind'
  exact seen?_eq_some_iff.2 ⟨node, hfind, heq.trans hentry⟩

theorem exists_resolve_of_seen? (h : fs.seen? p = some found) :
    ∃ slash, fs.resolve .withSlash p = .ok ⟨found.1, slash⟩ := by
  obtain ⟨node, hfind, -⟩ := seen?_eq_some_iff.1 h
  obtain ⟨⟨_, slash⟩, hresolve, rfl, -⟩ := find_eq_ok_iff_resolve.1 hfind
  exact ⟨slash, hresolve⟩

theorem readBytes_eq_ok_iff :
    fs.readBytes p = .ok b ↔ ∃ place, fs.stat p = .ok (place, .file b) := by
  rw [readBytes]
  cases hstat : fs.stat p with
  | error e => simp
  | ok found =>
      obtain ⟨place, node⟩ := found
      cases node <;> simp

theorem stat_ne_link {target : String} : fs.stat p ≠ .ok (place, .link target) := by
  intro hstat
  obtain ⟨spot, hresolve, rfl, hnode, -⟩ := find_eq_ok_iff_resolve.1 hstat
  have hentry : fs.entryAt? spot.place = some (.link target) := by
    rw [entryAt?_eq_map, hnode]
    rfl
  obtain ⟨-, horigin, hway⟩ := resolve_eq_ok_iff_walks.1 hresolve
  rcases hway.ends horigin with hdir | ⟨-, hnolink⟩
  · rw [hentry] at hdir
    cases hdir
  · exact hnolink rfl target hentry

/-- A path without a slash at its end names what stands where it leads. -/
theorem seen?_of_resolve (hslash : p.endsWithSlash = false)
    (h : fs.resolve .never p = .ok spot) :
    fs.seen? p = (fs.entryAt? spot.place).map fun entry => (spot.place, entry) := by
  have hway := (resolve_eq_ok_iff_walks.1 h).2.2.slash_eq.trans hslash
  rw [← resolve_withSlash hslash] at h
  rw [entryAt?_eq_map]
  cases hnode : fs.node? spot.place with
  | none => rw [FileSystem.seen?, lstat, FileSystem.find, h]; simp [hnode]
  | some node =>
      rw [FileSystem.seen?, lstat, find_of_resolve h hnode, hway]
      rfl

/-- A path that names a file or a link was written without a slash at its end. -/
theorem resolve_of_seen? (h : fs.seen? p = some (place, entry)) (hne : entry ≠ .dir) :
    p.endsWithSlash = false ∧ fs.resolve .never p = .ok ⟨place, false⟩
      ∧ fs.entryAt? place = some entry := by
  obtain ⟨node, hfind, rfl⟩ := seen?_eq_some_iff.1 h
  obtain ⟨⟨_, slash⟩, hresolve, rfl, hnode, hdir⟩ := find_eq_ok_iff_resolve.1 hfind
  have hend : slash = false := by
    rw [Bool.eq_false_iff]
    exact fun hslash => hne (Node.isDir_iff_entry.1 (hdir hslash))
  have hslash : p.endsWithSlash = false := by
    rw [Bool.eq_false_iff]
    intro hslash
    have hway := (resolve_eq_ok_iff_walks.1 hresolve).2.2.slash_of_slash hslash
    rw [hend] at hway
    cases hway
  subst hend
  refine ⟨hslash, resolve_withSlash hslash ▸ hresolve, ?_⟩
  rw [entryAt?_eq_map, hnode, Option.map_some]

theorem readBytes_of_seen? (h : fs.seen? p = some (place, .file b)) : fs.readBytes p = .ok b := by
  obtain ⟨-, hresolve, hentry⟩ := resolve_of_seen? h (by simp)
  have halways := resolve_always_of_never hresolve (by rw [hentry]; simp)
  exact readBytes_eq_ok_iff.2 ⟨place, find_eq_ok_iff_resolve.2
    ⟨_, halways, rfl, entryAt?_eq_file_iff.1 hentry, fun hslash => by cases hslash⟩⟩

/-- A path that can be read names a file or a link. -/
theorem seen?_of_readBytes (h : fs.readBytes p = .ok b) :
    ∃ place entry, fs.seen? p = some (place, entry) ∧ entry ≠ .dir := by
  obtain ⟨_, hstat⟩ := readBytes_eq_ok_iff.1 h
  obtain ⟨spot, hresolve, rfl, hnode, hdir⟩ := find_eq_ok_iff_resolve.1 hstat
  have hfile := entryAt?_eq_file_iff.2 hnode
  obtain ⟨husable, horigin, hway⟩ := resolve_eq_ok_iff_walks.1 hresolve
  have hslash : p.endsWithSlash = false := by
    rw [Bool.eq_false_iff]
    exact fun hslash => absurd (hdir (hway.slash_of_slash hslash)) (by simp [Node.isDir])
  obtain ⟨other, hnever, hother, -⟩ := hway.unfollowed (by rw [hfile]; simp)
  obtain ⟨entry, hentry⟩ := Option.ne_none_iff_exists'.1 hother
  have hseen := seen?_of_resolve hslash (resolve_eq_ok_iff_walks.2 ⟨husable, horigin, hnever⟩)
  rw [hentry, Option.map_some] at hseen
  refine ⟨_, _, hseen, ?_⟩
  rintro rfl
  -- at a directory the way would end in any case
  have hsame := hway.unique (hnever.followed (by rw [hentry]; simp))
  rw [hsame, hfile] at hentry
  cases hentry

/-! ## Vacant places -/

/-- **A path leads to a place where nothing stands**, and a file can be made there. -/
structure Vacant (fs : FileSystem) (p : HostPath) (place : Place) : Prop where
  unslashed : p.endsWithSlash = false
  leads : fs.resolve .never p = .ok ⟨place, false⟩
  empty : fs.entryAt? place = none

namespace Vacant

theorem seen? (h : fs.Vacant p place) : fs.seen? p = none := by
  rw [seen?_of_resolve h.unslashed h.leads, h.empty, Option.map_none]

theorem always (h : fs.Vacant p place) : fs.resolve .always p = .ok ⟨place, false⟩ :=
  resolve_always_of_never h.leads (by rw [h.empty]; simp)

theorem fills (h : fs.Vacant p place) (hhome : fs'.home = fs.home)
    (hentry : ∀ q, fs'.entryAt? q = if q = place then some (.file b) else fs.entryAt? q) :
    Fills fs fs' :=
  .of_put hhome (by simp) h.empty hentry

theorem seen?_of_put (h : fs.Vacant p place) (hhome : fs'.home = fs.home)
    (hentry : ∀ q, fs'.entryAt? q = if q = place then some (.file b) else fs.entryAt? q) :
    fs'.seen? p = some (place, .file b) := by
  rw [seen?_of_resolve h.unslashed ((h.fills hhome hentry).resolve h.leads), hentry, if_pos rfl,
    Option.map_some]

theorem entryAt?_setFile (h : fs.Vacant p place) (b : ByteArray) (q : Place) :
    (fs.setFile place b).entryAt? q = if q = place then some (.file b) else fs.entryAt? q :=
  entryAt?_setFile_of_resolve h.leads (by rw [h.empty]; simp) b q

theorem seen?_setFile (h : fs.Vacant p place) :
    (fs.setFile place b).seen? p = some (place, .file b) :=
  h.seen?_of_put rfl (h.entryAt?_setFile b)

theorem entryAt?_rewrite (h : fs.Vacant p place) (b : ByteArray) (q : Place) :
    ((fs.setFile place .empty).setFile place b).entryAt? q
      = if q = place then some (.file b) else fs.entryAt? q := by
  have hempty := h.entryAt?_setFile .empty
  have hfills : Fills fs (fs.setFile place .empty) := h.fills rfl hempty
  rw [entryAt?_setFile_of_resolve (hfills.resolve h.leads) (by rw [hempty, if_pos rfl]; simp),
    hempty]
  split <;> rfl

end Vacant

/-! ## Taking away a file or a link -/

theorem entryAt?_erase_of_ne_dir (h : fs.entryAt? place = some entry) (hne : entry ≠ .dir)
    (hroot : place ≠ []) (q : Place) :
    (fs.erase place).entryAt? q = if q = place then none else fs.entryAt? q := by
  obtain ⟨dir, name, hplace⟩ := (List.eq_nil_or_concat place).resolve_left hroot
  rw [List.concat_eq_append] at hplace
  rw [hplace, entryAt?_erase_below, ← hplace]
  by_cases hbelow : place <+: q
  · obtain ⟨more, rfl⟩ := hbelow
    rw [if_pos (List.prefix_append place more)]
    cases more with
    | nil => rw [List.append_nil, if_pos rfl]
    | cons next more =>
        rw [if_neg (by simp)]
        by_contra hthere
        rw [dir_of_below (Ne.symm hthere)] at h
        exact hne (Option.some.inj h).symm
  · rw [if_neg hbelow, if_neg]
    rintro rfl
    exact hbelow List.prefix_rfl

/-- What is not followed to its end leads to the same place before and after, if no directory has
been taken away. -/
theorem Shrinks.walks_back (h : Shrinks fs fs')
    (hdirs : ∀ q, fs.entryAt? q = some .dir → fs'.entryAt? q = some .dir) {slash : Bool}
    {links : Nat} {names : List String} (hway : fs'.Walks false links slash place names spot) :
    fs.Walks false links slash place names spot := by
  induction hway with
  | here => exact .here
  | dot hname _ ih => exact .dot hname ih
  | dots hname _ ih => exact .dots hname ih
  | dir hstep hdir _ ih => exact .dir hstep (h.eq_some hdir) ih
  | link hstep hlink hgo _ ih => exact .link hstep (h.eq_some hlink) hgo ih
  | last hstep hnot _ => exact .last hstep (mt (hdirs _) hnot) fun hfollow => by cases hfollow

/-- The file system once what stands at a path has been taken away, unless it is a directory. -/
def cleared (fs : FileSystem) (p : HostPath) : FileSystem :=
  match fs.seen? p with
  | none => fs
  | some (_, .dir) => fs
  | some (place, _) => fs.erase place

theorem cleared_of_none (h : fs.seen? p = none) : fs.cleared p = fs := by rw [cleared, h]

theorem cleared_of_dir (h : fs.seen? p = some (place, .dir)) : fs.cleared p = fs := by
  rw [cleared, h]

theorem cleared_of_ne_dir (h : fs.seen? p = some (place, entry)) (hne : entry ≠ .dir) :
    fs.cleared p = fs.erase place := by
  rw [cleared, h]
  cases entry with
  | dir => exact absurd rfl hne
  | file b => rfl
  | link target => rfl

theorem shrinks_cleared (fs : FileSystem) (p : HostPath) : Shrinks fs (fs.cleared p) := by
  unfold cleared
  split
  · exact .refl fs
  · exact .refl fs
  · exact .erase fs _

theorem entryAt?_cleared (h : fs.seen? p = some (place, entry)) (hne : entry ≠ .dir) (q : Place) :
    (fs.cleared p).entryAt? q = if q = place then none else fs.entryAt? q := by
  obtain ⟨-, hresolve, hentry⟩ := resolve_of_seen? h hne
  rw [cleared_of_ne_dir h hne]
  refine entryAt?_erase_of_ne_dir hentry hne ?_ q
  rintro rfl
  rw [FileAction.root_dir_of_resolve hresolve] at hentry
  exact hne (Option.some.inj hentry).symm

theorem dir_cleared {q : Place} (h : fs.entryAt? q = some .dir) :
    (fs.cleared p).entryAt? q = some .dir := by
  rcases fs.seen?_cases p with hnone | ⟨place, hdir⟩ | ⟨place, entry, hseen, hne⟩
  · rw [cleared_of_none hnone, h]
  · rw [cleared_of_dir hdir, h]
  · obtain ⟨-, -, hentry⟩ := resolve_of_seen? hseen hne
    rw [entryAt?_cleared hseen hne, if_neg, h]
    rintro rfl
    rw [hentry] at h
    exact hne (Option.some.inj h)

theorem seen?_cleared_of_ne_dir (h : fs.seen? p = some (place, entry)) (hne : entry ≠ .dir) :
    (fs.cleared p).seen? p = none := by
  by_contra hthere
  obtain ⟨⟨place', entry'⟩, hseen⟩ := Option.ne_none_iff_exists'.1 hthere
  -- it would have been seen before, and it is gone
  have hbefore := (shrinks_cleared fs p).seen? hseen
  rw [h] at hbefore
  cases hbefore
  obtain ⟨-, -, hentry⟩ := resolve_of_seen? hseen hne
  rw [entryAt?_cleared h hne, if_pos rfl] at hentry
  cases hentry

theorem eq_dir_of_seen?_cleared (h : (fs.cleared p).seen? p = some (place, entry)) :
    entry = .dir := by
  by_contra hne
  have hbefore := (shrinks_cleared fs p).seen? h
  rw [seen?_cleared_of_ne_dir hbefore hne] at h
  cases h

/-- **Where something stood, the vacant place is its own.** A path that leads on without it does not
go by it. -/
theorem Vacant.place_eq (h : (fs.cleared p).Vacant p place)
    (hseen : fs.seen? p = some found) : found.1 = place := by
  obtain ⟨place', entry⟩ := found
  by_cases hdir : entry = .dir
  · rw [hdir] at hseen
    rw [cleared_of_dir hseen] at h
    rw [h.seen?] at hseen
    cases hseen
  · obtain ⟨-, hresolve, -⟩ := resolve_of_seen? hseen hdir
    have hshrinks := shrinks_cleared fs p
    obtain ⟨-, -, hbefore⟩ := resolve_eq_ok_iff_walks.1 hresolve
    obtain ⟨-, -, hafter⟩ := resolve_eq_ok_iff_walks.1 h.leads
    rw [origin_congr hshrinks.home] at hafter
    have hback := hshrinks.walks_back (fun _ => dir_cleared) hafter
    exact (Spot.mk.inj (hbefore.unique hback)).1.symm

theorem Vacant.entryAt?_cleared (h : (fs.cleared p).Vacant p place) {q : Place} (hq : q ≠ place) :
    (fs.cleared p).entryAt? q = fs.entryAt? q := by
  rcases fs.seen?_cases p with hnone | ⟨place', hdir⟩ | ⟨place', entry, hseen, hne⟩
  · rw [cleared_of_none hnone]
  · rw [cleared_of_dir hdir]
  · rw [FileSystem.entryAt?_cleared hseen hne, if_neg]
    exact fun heq => hq (heq.trans (h.place_eq hseen))

/-! ## Ready for a new file -/

/-- The file system once all has been made ready for a new file: the directories around it have
been made, as far as they could be, and a file or a link in its place has been taken away. -/
def readied (fs : FileSystem) (dst : HostPath) : FileSystem := (fs.withParent dst).cleared dst

/-- Around a path that names something nothing has to be made. -/
theorem readied_of_seen? (h : fs.seen? dst = some found) : fs.readied dst = fs.cleared dst := by
  obtain ⟨slash, hresolve⟩ := exists_resolve_of_seen? h
  rw [readied, withParent, FileAction.ensureParent_of_resolve hresolve]

/-- **A file has been put where a path leads**, in place of what stood there, and nothing else has
changed but that directories have been made on the way. -/
structure Replaced (dst : HostPath) (place : Place) (b : ByteArray) (fs fs' : FileSystem) :
    Prop where
  seen : fs'.seen? dst = some (place, .file b)
  reads : fs'.readBytes dst = .ok b
  before : ∀ found, fs.seen? dst = some found → found.1 = place
  rest : ∀ q, q ≠ place → fs'.entryAt? q = fs.entryAt? q
    ∨ fs.entryAt? q = none ∧ fs'.entryAt? q = some .dir ∧ fs'.OnWay dst q

/-- **What can become of `dst` when the copying of `src` to it fails.** -/
inductive Harms (fs : FileSystem) (src dst : HostPath) : Prop
  /-- A directory can be opened, and that it cannot be read shows once an empty file is there. -/
  | unread {place : Place} : fs.isDir src = true → (fs.readied dst).Vacant dst place →
      fs.seen? dst ≠ some (place, .file .empty) → Harms fs src dst
  /-- The path goes by the link that stands at its end, and leads nowhere without it. -/
  | severed {place : Place} {entry : Entry} : fs.exists? src = true →
      fs.seen? dst = some (place, entry) → entry ≠ .dir →
      (∀ place, ¬ (fs.readied dst).Vacant dst place) → Harms fs src dst
  /-- The path turns back behind a directory that is made for it, and so names one. -/
  | turned {place : Place} : fs.exists? src = true → fs.seen? dst = none →
      (fs.readied dst).seen? dst = some (place, .dir) → Harms fs src dst

theorem Harms.exists? (h : fs.Harms src dst) : fs.exists? src = true := by
  cases h with
  | unread hdir _ _ =>
      obtain ⟨place, es, hstat⟩ := isDir_iff_stat.1 hdir
      exact exists?_iff_stat.2 ⟨_, hstat⟩
  | severed hexists _ _ _ => exact hexists
  | turned hexists _ _ => exact hexists

end FileSystem

namespace FileAction

open FileSystem (Fills MadeAlong Vacant Shrinks Replaced Harms)

variable {fs fs' : FileSystem} {p src dst : HostPath} {place : Place}

/-! ## The steps of a copy -/

theorem withParent_along (fs : FileSystem) (dst : HostPath) :
    MadeAlong dst fs (fs.withParent dst) := by
  have hends := ensureParent_along dst fs
  rw [FileSystem.withParent]
  cases hrun : ensureParent dst fs with
  | ok _ fs' => exact hends.of_ok hrun
  | error e fs' => exact (hends.of_error hrun).1

theorem clearFile_eq (p : HostPath) (fs : FileSystem) :
    clearFile p fs = .ok () (fs.cleared p) := by
  rw [clearFile]
  rcases fs.seen?_cases p with hnone | ⟨place, hdir⟩ | ⟨place, entry, hseen, hne⟩
  · rw [if_neg (by simp [FileSystem.isNonDir_eq_false_of_none hnone]),
      FileSystem.cleared_of_none hnone]
  · rw [if_neg (by simp [FileSystem.isNonDir_iff_of_seen? hdir]), FileSystem.cleared_of_dir hdir]
  · obtain ⟨hslash, hresolve, hentry⟩ := FileSystem.resolve_of_seen? hseen hne
    rw [if_pos ((FileSystem.isNonDir_iff_of_seen? hseen).2 hne),
      FileSystem.cleared_of_ne_dir hseen hne, removeFile, hresolve]
    rw [FileSystem.entryAt?_eq_map] at hentry
    obtain ⟨node, hnode, rfl⟩ := Option.map_eq_some_iff.1 hentry
    dsimp only
    rw [hnode]
    cases node with
    | dir es => exact absurd rfl hne
    | file b => simp [hslash]
    | link target => simp [hslash]

/-- **Where nothing but a directory stands at a path, a file is made exactly if the path is
vacant.** -/
theorem createFile_ends_vacant
    (hleft : ∀ place entry, fs.seen? p = some (place, entry) → entry = .dir) :
    Ends (createFile p) fs
      (fun place fs' => fs.Vacant p place ∧ fs' = fs.setFile place .empty)
      (fun _ fs' => (∀ place, ¬ fs.Vacant p place) ∧ fs' = fs) := by
  rw [Ends, createFile]
  cases hplace : writePlace p fs with
  | error e =>
      refine ⟨fun place hvacant => ?_, rfl⟩
      rw [writePlace_eq_ok_iff_resolve.2 ⟨hvacant.unslashed, ⟨_, hvacant.leads⟩, hvacant.always,
        by rw [hvacant.empty]; simp⟩] at hplace
      cases hplace
  | ok place =>
      obtain ⟨hslash, ⟨spot, hnever⟩, halways, hnot⟩ := writePlace_eq_ok_iff_resolve.1 hplace
      have hseen := FileSystem.seen?_of_resolve hslash hnever
      cases hentry : fs.entryAt? spot.place with
      | none =>
          rw [FileSystem.resolve_always_of_never hnever (by rw [hentry]; simp)] at halways
          cases halways
          exact ⟨⟨hslash, hnever, hentry⟩, rfl⟩
      | some entry =>
          -- a directory would be found there when links are followed
          rw [hentry, Option.map_some] at hseen
          obtain rfl := hleft _ _ hseen
          rw [FileSystem.resolve_always_of_never hnever (by rw [hentry]; simp)] at halways
          cases halways
          exact absurd hentry hnot

/-- Where the directories around a path cannot be made, the path is not vacant. -/
theorem not_vacant_of_ensureParent {e : FileError} (h : ensureParent dst fs = .error e fs') :
    fs.readied dst = fs' ∧ ∀ place, ¬ fs'.Vacant dst place := by
  obtain ⟨-, hnowhere⟩ := (ensureParent_along dst fs).of_error h
  have hunseen : fs'.seen? dst = none := by
    by_contra hthere
    obtain ⟨found, hseen⟩ := Option.ne_none_iff_exists'.1 hthere
    obtain ⟨slash, hresolve⟩ := FileSystem.exists_resolve_of_seen? hseen
    exact hnowhere _ _ hresolve
  refine ⟨?_, fun place hvacant => hnowhere _ _ hvacant.leads⟩
  rw [FileSystem.readied, FileSystem.withParent, h]
  exact FileSystem.cleared_of_none hunseen

/-- **How a copy ends**, apart from one of a file onto itself: with the file made anew, or where it
could not be made, or where its source turns out to be a directory. -/
theorem copyFile_ends_readied {found : Place × Node} (hother : src.same dst = false)
    (hstat : fs.stat src = .ok found) :
    Ends (copyFile src dst) fs
      (fun n fs' => ∃ b place, found.2 = .file b ∧ n = b.size ∧ (fs.readied dst).Vacant dst place
        ∧ fs' = ((fs.readied dst).setFile place .empty).setFile place b)
      (fun _ fs' => (∀ place, ¬ (fs.readied dst).Vacant dst place) ∧ fs' = fs.readied dst
        ∨ fs.isDir src = true ∧ ∃ place, (fs.readied dst).Vacant dst place
          ∧ fs' = (fs.readied dst).setFile place .empty) := by
  rw [copyFile, if_neg (by simp [hother])]
  refine Ends.bind (ends_ask (fun found' hfound => ?_) fun e herror => ?_)
  swap
  · rw [hstat] at herror
    cases herror
  rw [hstat] at hfound
  cases hfound
  obtain ⟨at', source⟩ := found
  dsimp only
  refine Ends.bind ?_
  cases hparent : ensureParent dst fs with
  | error e fs1 =>
      obtain ⟨rfl, hnot⟩ := not_vacant_of_ensureParent hparent
      exact ends_of_error hparent (Or.inl ⟨hnot, rfl⟩)
  | ok _ fs1 =>
      have hready : fs1.cleared dst = fs.readied dst := by
        rw [FileSystem.readied, FileSystem.withParent, hparent]
      refine ends_of_ok hparent (Ends.bind (ends_of_ok (clearFile_eq dst fs1) ?_))
      rw [hready]
      have hleft : ∀ place entry, (fs.readied dst).seen? dst = some (place, entry) →
          entry = .dir := fun _ _ => FileSystem.eq_dir_of_seen?_cleared
      refine Ends.bind ((createFile_ends_vacant hleft).mono ?_ fun _ _ h => Or.inl h)
      rintro place _ ⟨hvacant, rfl⟩
      cases source with
      | file b => exact ⟨b, place, rfl, rfl, hvacant, rfl⟩
      | dir es =>
          exact Or.inr ⟨FileSystem.isDir_iff_stat.2 ⟨at', es, hstat⟩, place, hvacant, rfl⟩
      | link target => exact absurd hstat FileSystem.stat_ne_link

/-! ## Copies that return -/

/-- **A copy replaces what its new path names**, whatever links lead there or to the source. -/
theorem copyFile_replaces {b : ByteArray} {n : Nat} (hother : src.same dst = false)
    (hsrc : fs.readBytes src = .ok b) (h : copyFile src dst fs = .ok n fs') :
    n = b.size ∧ ∃ place, Replaced dst place b fs fs' := by
  obtain ⟨at', hstat⟩ := FileSystem.readBytes_eq_ok_iff.1 hsrc
  obtain ⟨b', place, hfile, hn, hvacant, hrun⟩ := (copyFile_ends_readied hother hstat).of_ok h
  cases hfile
  have hentry : ∀ q, fs'.entryAt? q
      = if q = place then some (.file b) else (fs.readied dst).entryAt? q := by
    rw [hrun]
    exact hvacant.entryAt?_rewrite b
  have hhome : fs'.home = (fs.readied dst).home := by
    rw [hrun]
    rfl
  have halong := withParent_along fs dst
  have hfills := hvacant.fills hhome hentry
  have hseen := hvacant.seen?_of_put hhome hentry
  refine ⟨hn, place, hseen, FileSystem.readBytes_of_seen? hseen,
    fun found hfound => hvacant.place_eq (halong.fills.seen? hfound), fun q hq => ?_⟩
  rw [hentry, if_neg hq, FileSystem.readied, hvacant.entryAt?_cleared hq]
  refine (halong.entry q).imp id fun hmade => ⟨hmade.1, hmade.2.1, ?_⟩
  exact (hmade.2.2.shrinks (FileSystem.shrinks_cleared _ dst) hvacant.leads).fills hfills

theorem copyFile_onto_itself {b : ByteArray} {n : Nat} (hsame : src.same dst = true)
    (hsrc : fs.readBytes src = .ok b) (h : copyFile src dst fs = .ok n fs') :
    n = b.size ∧ fs' = fs ∧ ∀ c, fs.readBytes dst = .ok c → c = b := by
  obtain ⟨place, hstat⟩ := FileSystem.readBytes_eq_ok_iff.1 hsrc
  rw [copyFile, if_pos hsame, ask_eq_ok_iff, sizeOf, hstat] at h
  obtain ⟨hsize, rfl⟩ := h
  refine ⟨(Except.ok.inj hsize).symm, rfl, fun c hdst => ?_⟩
  -- both spellings lead to one place
  obtain ⟨place', hstat'⟩ := FileSystem.readBytes_eq_ok_iff.1 hdst
  obtain ⟨spot, hresolve, rfl, hnode, -⟩ := FileSystem.find_eq_ok_iff_resolve.1 hstat
  obtain ⟨spot', hresolve', rfl, hnode', -⟩ := FileSystem.find_eq_ok_iff_resolve.1 hstat'
  have hparts : src.parts = dst.parts := by simpa [HostPath.same] using hsame
  rw [FileSystem.place_eq_of_parts_eq hparts hresolve hresolve', hnode] at hnode'
  exact (Node.file.inj (Option.some.inj hnode')).symm

/-- **A copy is exact, whatever names its two paths give to one file.** -/
theorem copyFile_exact {b : ByteArray} {n : Nat} (hsrc : fs.readBytes src = .ok b)
    (h : copyFile src dst fs = .ok n fs') :
    n = b.size
      ∧ (src.same dst = true → fs' = fs ∧ ∀ c, fs'.readBytes dst = .ok c → c = b)
      ∧ (src.same dst = false → ∃ place, Replaced dst place b fs fs') := by
  cases hsame : src.same dst with
  | true =>
      obtain ⟨hn, rfl, hreads⟩ := copyFile_onto_itself hsame hsrc h
      exact ⟨hn, fun _ => ⟨rfl, hreads⟩, fun hother => by cases hother⟩
  | false =>
      obtain ⟨hn, hreplaced⟩ := copyFile_replaces hsame hsrc h
      exact ⟨hn, fun hsame => (by cases hsame), fun _ => hreplaced⟩

/-! ### A disk with two names for a file -/

/-- A disk with a directory, a file and a link to the file. -/
def linkedDisk : FileSystem :=
  (((FileSystem.empty []).setDir ["d"]).setFile ["kept"] ⟨#[49]⟩).setLink ["l"] "kept"

theorem seen?_linkedDisk_kept :
    linkedDisk.seen? ⟨"/kept"⟩ = some (["kept"], .file ⟨#[49]⟩) := by
  have hresolve : linkedDisk.resolve .never ⟨"/kept"⟩ = .ok ⟨["kept"], false⟩ := by decide +kernel
  rw [FileSystem.seen?_of_resolve (by decide) hresolve]
  rfl

theorem seen?_linkedDisk_l : linkedDisk.seen? ⟨"/l"⟩ = some (["l"], .link "kept") := by
  have hresolve : linkedDisk.resolve .never ⟨"/l"⟩ = .ok ⟨["l"], false⟩ := by decide +kernel
  rw [FileSystem.seen?_of_resolve (by decide) hresolve]
  rfl

/-- The file is copied onto the link to it: the link becomes a file with the same bytes, and the
file stays. -/
theorem linkedDisk_link_replaced :
    linkedDisk.readBytes ⟨"/kept"⟩ = .ok ⟨#[49]⟩
      ∧ linkedDisk.seen? ⟨"/l"⟩ = some (["l"], .link "kept")
      ∧ ∃ fs', copyFile ⟨"/kept"⟩ ⟨"/l"⟩ linkedDisk = .ok 1 fs'
        ∧ fs'.seen? ⟨"/l"⟩ = some (["l"], .file ⟨#[49]⟩)
        ∧ fs'.entryAt? ["kept"] = some (.file ⟨#[49]⟩) := by
  have hread : linkedDisk.readBytes ⟨"/kept"⟩ = .ok ⟨#[49]⟩ := by decide +kernel
  obtain ⟨n, fs', hrun⟩ := returns_iff.1
    (by decide +kernel : returns (copyFile ⟨"/kept"⟩ ⟨"/l"⟩) linkedDisk = true)
  obtain ⟨rfl, -, hother⟩ := copyFile_exact hread hrun
  obtain ⟨place, hreplaced⟩ := hother (by decide +kernel)
  obtain rfl : ["l"] = place := hreplaced.before _ seen?_linkedDisk_l
  refine ⟨hread, seen?_linkedDisk_l, fs', hrun, hreplaced.seen, ?_⟩
  rcases hreplaced.rest ["kept"] (by decide) with heq | ⟨hnone, -⟩
  · rw [heq]
    rfl
  · cases hnone

/-- **A copy onto another spelling of the source does nothing**, and a spelling with a slash at its
end cannot be read. -/
theorem copyFile_onto_slash_is_unreadable :
    ¬ ∀ (fs fs' : FileSystem) (src dst : HostPath) (b : ByteArray) (n : Nat),
      fs.readBytes src = .ok b → copyFile src dst fs = .ok n fs' →
      fs'.readBytes dst = .ok b ∧ n = b.size := by
  intro hall
  have hread : linkedDisk.readBytes ⟨"/kept"⟩ = .ok ⟨#[49]⟩ := by decide +kernel
  obtain ⟨n, fs', hrun⟩ := returns_iff.1
    (by decide +kernel : returns (copyFile ⟨"/kept"⟩ ⟨"/kept/"⟩) linkedDisk = true)
  obtain ⟨-, rfl, -⟩ := copyFile_onto_itself (by decide +kernel) hread hrun
  have hreadBack : linkedDisk.readBytes ⟨"/kept/"⟩ = .error .notDirectory := by decide +kernel
  have hclaimed := (hall _ _ _ _ _ n hread hrun).1
  rw [hreadBack] at hclaimed
  cases hclaimed

/-! ## Copies that fail -/

/-- Without its source a copy fails before anything has been done. -/
theorem copyFile_of_missing {cause : FileError} (hstat : fs.stat src = .error cause) :
    Ends (copyFile src dst) fs (fun _ _ => False) (fun _ fs' => fs' = fs) := by
  rw [copyFile]
  split
  · refine ends_ask (fun n hsize => ?_) fun _ _ => rfl
    rw [sizeOf, hstat] at hsize
    cases hsize
  · refine Ends.bind (ends_ask (fun found hfound => ?_) fun _ _ => rfl)
    rw [hstat] at hfound
    cases hfound

/-- What is there is copied onto itself, since its size can be told. -/
theorem copyFile_same_returns {found : Place × Node} (hsame : src.same dst = true)
    (hstat : fs.stat src = .ok found) :
    Ends (copyFile src dst) fs (fun _ _ => True) (fun _ _ => False) := by
  rw [copyFile, if_pos hsame]
  refine ends_ask (fun _ _ => trivial) fun cause hcause => ?_
  obtain ⟨place, node⟩ := found
  rw [sizeOf, hstat] at hcause
  cases node <;> cases hcause

/-- **How a copy fails**: without its source nothing has been done, and with it all has been made
ready for the new file, which could not be made or stays empty. -/
theorem copyFile_eq_error {e : FileError} (h : copyFile src dst fs = .error e fs') :
    fs.exists? src = false ∧ fs' = fs
      ∨ fs.exists? src = true ∧ (∀ place, ¬ (fs.readied dst).Vacant dst place)
        ∧ fs' = fs.readied dst
      ∨ fs.isDir src = true ∧ ∃ place, (fs.readied dst).Vacant dst place
        ∧ fs' = (fs.readied dst).setFile place .empty := by
  cases hstat : fs.stat src with
  | error cause =>
      refine Or.inl ⟨?_, (copyFile_of_missing hstat).of_error h⟩
      rw [FileSystem.exists?, hstat]
      rfl
  | ok found =>
      cases hsame : src.same dst with
      | true => exact ((copyFile_same_returns hsame hstat).of_error h).elim
      | false =>
          rcases (copyFile_ends_readied hsame hstat).of_error h with hfull | hunread
          · exact Or.inr (Or.inl ⟨FileSystem.exists?_iff_stat.2 ⟨found, hstat⟩, hfull⟩)
          · exact Or.inr (Or.inr hunread)

/-- Where the new file could not be made, the path names what it named before, unless that has been
taken away or a directory has come there. -/
theorem seen?_readied_iff (hexists : fs.exists? src = true)
    (hfull : ∀ place, ¬ (fs.readied dst).Vacant dst place) :
    (fs.readied dst).seen? dst = fs.seen? dst ↔ ¬ Harms fs src dst := by
  rcases fs.seen?_cases dst with hnone | ⟨place, hdir⟩ | ⟨place, entry, hseen, hne⟩
  · rw [hnone]
    refine ⟨fun hleft hharms => ?_, fun hno => ?_⟩
    · cases hharms with
      | unread _ hvacant _ => exact hfull _ hvacant
      | severed _ hseen _ _ =>
          rw [hnone] at hseen
          cases hseen
      | turned _ _ hmade =>
          rw [hleft] at hmade
          cases hmade
    · by_contra hthere
      obtain ⟨⟨place, entry⟩, hmade⟩ := Option.ne_none_iff_exists'.1 hthere
      obtain rfl := FileSystem.eq_dir_of_seen?_cleared hmade
      exact hno (.turned hexists hnone hmade)
  · rw [FileSystem.readied_of_seen? hdir, FileSystem.cleared_of_dir hdir]
    refine ⟨fun _ hharms => ?_, fun _ => rfl⟩
    cases hharms with
    | unread _ hvacant _ => exact hfull _ hvacant
    | severed _ hseen hne _ =>
        rw [hdir] at hseen
        cases hseen
        exact hne rfl
    | turned _ hnone _ =>
        rw [hdir] at hnone
        cases hnone
  · rw [FileSystem.readied_of_seen? hseen, FileSystem.seen?_cleared_of_ne_dir hseen hne, hseen]
    exact ⟨fun h => (by cases h), fun hno => absurd (.severed hexists hseen hne hfull) hno⟩

/-- Where an empty file has been made, the path names what it named before only if that was an
empty file. -/
theorem seen?_setFile_iff (hdir : fs.isDir src = true)
    (hvacant : (fs.readied dst).Vacant dst place) :
    ((fs.readied dst).setFile place .empty).seen? dst = fs.seen? dst ↔ ¬ Harms fs src dst := by
  rw [hvacant.seen?_setFile]
  refine ⟨fun hsame hharms => ?_, fun hno => ?_⟩
  · cases hharms with
    | unread _ hvacant' hother =>
        have hplace := hvacant.leads.symm.trans hvacant'.leads
        cases hplace
        exact hother hsame.symm
    | severed _ _ _ hfull => exact hfull place hvacant
    | turned _ _ hthere =>
        rw [hvacant.seen?] at hthere
        cases hthere
  · by_contra hother
    exact hno (.unread hdir hvacant (Ne.symm hother))

/-- **A copy that fails leaves at `dst` what was there**, apart from the three cases in which it
harms it. What is left is read as before, also through a link. -/
theorem failed_copyFile_keeps_iff {e : FileError} (h : copyFile src dst fs = .error e fs') :
    (fs'.seen? dst = fs.seen? dst ↔ ¬ Harms fs src dst)
      ∧ (¬ Harms fs src dst → ∀ b, fs.readBytes dst = .ok b → fs'.readBytes dst = .ok b) := by
  rcases copyFile_eq_error h with
    ⟨hmissing, rfl⟩ | ⟨hexists, hfull, rfl⟩ | ⟨hdir, place, hvacant, rfl⟩
  · refine ⟨⟨fun _ hharms => ?_, fun _ => rfl⟩, fun _ _ hread => hread⟩
    rw [hharms.exists?] at hmissing
    cases hmissing
  · have hiff := seen?_readied_iff hexists hfull
    refine ⟨hiff, fun hno b hread => ?_⟩
    -- what can be read is a file or a link, and that would have been taken away
    obtain ⟨place, entry, hseen, hne⟩ := FileSystem.seen?_of_readBytes hread
    exact absurd (.severed hexists hseen hne hfull) hno
  · have hiff := seen?_setFile_iff hdir hvacant
    refine ⟨hiff, fun hno b hread => ?_⟩
    have hseen := hiff.2 hno
    rw [hvacant.seen?_setFile] at hseen
    rw [FileSystem.readBytes_of_seen? hvacant.seen?_setFile, ← hread]
    exact (FileSystem.readBytes_of_seen? hseen.symm).symm

/-- On the disk with a directory and a file, a missing source leaves the file as it is, and the
directory as a source does not. -/
theorem linkedDisk_file_kept_or_harmed :
    (∃ e fs', copyFile ⟨"/x"⟩ ⟨"/kept"⟩ linkedDisk = .error e fs'
        ∧ fs'.seen? ⟨"/kept"⟩ = linkedDisk.seen? ⟨"/kept"⟩)
      ∧ ∃ e fs', copyFile ⟨"/d"⟩ ⟨"/kept"⟩ linkedDisk = .error e fs'
        ∧ fs'.seen? ⟨"/kept"⟩ ≠ linkedDisk.seen? ⟨"/kept"⟩ := by
  refine ⟨?_, ?_⟩
  · obtain ⟨e, fs', hrun⟩ := fails_iff.1
      (by decide +kernel : returns (copyFile ⟨"/x"⟩ ⟨"/kept"⟩) linkedDisk = false)
    refine ⟨e, fs', hrun, (failed_copyFile_keeps_iff hrun).1.2 fun hharms => ?_⟩
    have hmissing : linkedDisk.exists? ⟨"/x"⟩ = false := by decide +kernel
    rw [hharms.exists?] at hmissing
    cases hmissing
  · obtain ⟨e, fs', hrun⟩ := fails_iff.1
      (by decide +kernel : returns (copyFile ⟨"/d"⟩ ⟨"/kept"⟩) linkedDisk = false)
    have hvacant : (linkedDisk.readied ⟨"/kept"⟩).Vacant ⟨"/kept"⟩ ["kept"] :=
      ⟨by decide +kernel, by decide +kernel, by decide +kernel⟩
    refine ⟨e, fs', hrun, fun hsame => (failed_copyFile_keeps_iff hrun).1.1 hsame ?_⟩
    refine .unread (by decide +kernel) hvacant fun hempty => ?_
    rw [seen?_linkedDisk_kept] at hempty
    cases hempty

/-- **A directory as the source destroys the file at the new path**, although it can never be
copied so. -/
theorem failed_copyFile_of_dir_empties :
    ¬ ∀ (fs fs' : FileSystem) (src dst : HostPath) (e : FileError),
      copyFile src dst fs = .error e fs' → fs'.seen? dst = fs.seen? dst := by
  intro hall
  obtain ⟨e, fs', hrun⟩ := fails_iff.1
    (by decide +kernel : returns (copyFile ⟨"/d"⟩ ⟨"/kept"⟩) linkedDisk = false)
  have hvacant : (linkedDisk.readied ⟨"/kept"⟩).Vacant ⟨"/kept"⟩ ["kept"] :=
    ⟨by decide +kernel, by decide +kernel, by decide +kernel⟩
  rcases copyFile_eq_error hrun with ⟨hmissing, -⟩ | ⟨-, hfull, -⟩ | ⟨-, place, hplace, rfl⟩
  · exact absurd hmissing (by decide +kernel)
  · exact hfull _ hvacant
  · have hclaimed := hall _ _ _ _ _ hrun
    rw [hplace.seen?_setFile, seen?_linkedDisk_kept] at hclaimed
    cases hclaimed

end FileAction

end PackageScript
