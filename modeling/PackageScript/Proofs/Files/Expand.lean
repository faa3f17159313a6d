import Mathlib.Data.List.TakeWhile
import PackageScript.Files.Expand
import PackageScript.Proofs.Files.Queries

set_option autoImplicit false

/-! # What a pattern expands to

The expansion of a pattern goes from directory to directory, one segment at a time, and keeps
all that a segment admits. A path is in the expansion exactly if it can be reached by one hop
for each segment (`mem_descend_cons`). In a tree without links each hop goes one name down, so
that the place of a match spells out the names that the segments admitted
(`locate_of_mem_descend`), and it makes no difference that the segments in front of the first
wildcard are not looked up on the way (`mem_expandWith_iff`).
-/

namespace PackageScript

namespace HostPath

/-- The path that the expansion of a pattern starts from, put together from the names of a path
in front of the first wildcard. -/
def rebuilt (p : HostPath) : HostPath := p.steps.foldl child ⟨if p.isRooted then "/" else ""⟩

theorem steps_foldl_child {names : List String} (h : ∀ n ∈ names, IsSegment n) (p : HostPath) :
    (names.foldl child p).steps = p.steps ++ names := by
  induction names generalizing p with
  | nil => rw [List.foldl_nil, List.append_nil]
  | cons n rest ih =>
      rw [List.foldl_cons, ih (fun m hm => h m (List.mem_cons_of_mem _ hm)),
        steps_child p (h n List.mem_cons_self), List.append_assoc, List.singleton_append]

theorem isRooted_foldl_child {names : List String} (h : ∀ n ∈ names, IsSegment n)
    (p : HostPath) : (names.foldl child p).isRooted = p.isRooted := by
  induction names generalizing p with
  | nil => rfl
  | cons n rest ih =>
      rw [List.foldl_cons, ih (fun m hm => h m (List.mem_cons_of_mem _ hm)),
        isRooted_child p (h n List.mem_cons_self)]

theorem steps_rebuilt (p : HostPath) : p.rebuilt.steps = p.steps := by
  rw [rebuilt, steps_foldl_child fun n hn => isSegment_of_mem_steps hn]
  by_cases hr : p.isRooted = true
  · rw [if_pos hr]
    rfl
  · rw [if_neg hr]
    rfl

theorem isRooted_rebuilt (p : HostPath) : p.rebuilt.isRooted = p.isRooted := by
  rw [rebuilt, isRooted_foldl_child fun n hn => isSegment_of_mem_steps hn]
  by_cases hr : p.isRooted = true
  · rw [if_pos hr, hr]
    rfl
  · rw [if_neg hr, Bool.eq_false_iff.2 hr]
    rfl

end HostPath

theorem isPattern_iff {text : String} : isPattern text = true ↔ '*' ∈ text.toList := by
  rw [isPattern, List.contains_iff_mem]

theorem isPattern_text_iff {p : HostPath} :
    isPattern p.text = true ↔ ∃ s ∈ p.steps, isPattern s = true := by
  rw [isPattern_iff]
  constructor
  · intro h
    obtain ⟨s, hs, hmem⟩ := Text.exists_name_of_mem h (by decide)
    exact ⟨s, p.steps_eq ▸ hs, isPattern_iff.2 hmem⟩
  · rintro ⟨s, hs, hp⟩
    exact HostPath.mem_of_mem_steps hs '*' (isPattern_iff.1 hp)

theorem not_isPattern_of_mem_steps {p : HostPath} (h : isPattern p.text = false) {s : String}
    (hs : s ∈ p.steps) : ¬ isPattern s = true := by
  intro hp
  rw [isPattern_text_iff.2 ⟨s, hs, hp⟩] at h
  cases h

namespace FileSystem

variable {fs : FileSystem} {p q d root : HostPath} {name segment : String}

/-! ## Above what exists -/

theorem Walkable.of_concat {names : List String} {place : Place} {last : String}
    (h : fs.Walkable place (names ++ [last])) : fs.Walkable place names := by
  induction names generalizing place with
  | nil => trivial
  | cons n rest ih =>
      rw [List.cons_append] at h
      unfold Walkable at h ⊢
      by_cases hdot : n = "."
      · rw [if_pos hdot] at h ⊢
        exact ih h
      rw [if_neg hdot] at h ⊢
      by_cases hdots : n = ".."
      · rw [if_pos hdots] at h ⊢
        exact ih h
      rw [if_neg hdots] at h ⊢
      rcases h with ⟨hshort, hnil | ⟨hdir, hw⟩⟩
      · exact absurd (List.append_eq_nil_iff.1 hnil).2 (List.cons_ne_nil _ _)
      · exact ⟨hshort, Or.inr ⟨hdir, ih hw⟩⟩

/-- What exists below a path shows that the path leads to a directory. -/
theorem isDir_of_exists_child (hfs : fs.Plain) (hp : p.text ≠ "") (hname : IsPart name)
    (h : fs.exists? (p.child name) = true) : fs.isDir p = true := by
  obtain ⟨hleads, hne, -⟩ := (exists?_iff hfs).1 h
  rw [fs.locate_child p hname] at hne
  -- the text of `p` begins that of the child, and so is taken as a path too
  obtain ⟨between, htext⟩ := p.text_child hname.toIsSegment
  have hwalk := hleads.walkable
  have horigin := hleads.origin_dir
  rw [fs.origin_child p hname.toIsSegment] at hwalk horigin
  rw [HostPath.steps_child p hname.toIsSegment] at hwalk
  have husable := hleads.usable
  refine (isDir_iff hfs).2 ⟨⟨⟨fun hnul => husable.no_nul ?_, hp, ?_⟩, horigin, hwalk.of_concat⟩,
    dir_of_below hne⟩
  · rw [htext, String.toList_append, String.toList_append, List.append_assoc]
    exact List.mem_append_left _ hnul
  · have hlt := husable.short
    rw [htext, String.utf8ByteSize_append, String.utf8ByteSize_append] at hlt
    omega

theorem exists?_of_isDir (hfs : fs.Plain) (h : fs.isDir p = true) : fs.exists? p = true := by
  obtain ⟨hleads, hdir⟩ := (isDir_iff hfs).1 h
  exact (exists?_iff hfs).2 ⟨hleads, by rw [hdir]; simp, fun _ => hdir⟩

theorem node?_of_find {mode : Follow} {p : HostPath} {place : Place} {node : Node}
    (h : fs.find mode p = .ok (place, node)) : fs.node? place = some node := by
  rw [find] at h
  split at h
  · cases h
  · next spot _ =>
      split at h
      · cases h
      · next hnode =>
          cases h
          exact hnode
      · next hnode =>
          split at h
          · cases h
          · cases h
            exact hnode

theorem readDir_increasing {listing : List (String × Entry)} (h : fs.readDir p = .ok listing) :
    (listing.map Prod.fst).Pairwise (· < ·) := by
  rw [readDir] at h
  split at h
  · cases h
  · next place es hstat =>
      cases h
      have hordered : (Node.dir es).Ordered := fs.ordered.get? (node?_of_find hstat)
      rw [List.map_map, List.pairwise_map]
      exact hordered.increasing
  · cases h

/-- What is read is in order, so that it is taken as it is. -/
theorem namesIn_eq (fs : FileSystem) (d : HostPath) :
    fs.namesIn d = match fs.readDir (if d.text.isEmpty then ⟨"."⟩ else d) with
      | .ok entries => entries.map Prod.fst
      | .error _ => [] := by
  rw [namesIn]
  cases hlist : fs.readDir (if d.text.isEmpty then ⟨"."⟩ else d) with
  | ok listing => exact sortNames_eq_self (readDir_increasing hlist)
  | error _ => rfl

/-- The working directory is listed for the empty path. -/
theorem mem_namesIn_iff (hfs : fs.Plain) :
    name ∈ fs.namesIn d
      ↔ fs.isDir (if d.text.isEmpty then ⟨"."⟩ else d) = true
        ∧ fs.entryAt? (fs.locate d ++ [name]) ≠ none := by
  have hplace : fs.locate (if d.text.isEmpty then ⟨"."⟩ else d) = fs.locate d := by
    by_cases hempty : d.text.isEmpty = true
    · rw [if_pos hempty]
      have hd : d = ⟨""⟩ := by
        rw [String.isEmpty_iff] at hempty
        cases d
        cases hempty
        rfl
      rw [hd]
      rfl
    · rw [if_neg hempty]
  rw [namesIn_eq, ← hplace]
  generalize (if d.text.isEmpty then (⟨"."⟩ : HostPath) else d) = dir
  constructor
  · intro h
    split at h
    · next listing hlist =>
        obtain ⟨e, he, rfl⟩ := List.mem_map.1 h
        refine ⟨(isDir_iff hfs).2 ⟨(readDir_eq_ok hfs hlist).1, dir_of_readDir hfs hlist⟩, ?_⟩
        rw [(mem_readDir hfs hlist).1 he]
        simp
    · cases h
  · rintro ⟨hdir, hne⟩
    obtain ⟨hleads, hentry⟩ := (isDir_iff hfs).1 hdir
    obtain ⟨listing, hlist⟩ := readDir_isOk hfs hleads hentry
    obtain ⟨e, he⟩ := Option.ne_none_iff_exists'.1 hne
    rw [hlist]
    exact List.mem_map.2 ⟨(name, e), (mem_readDir hfs hlist).2 he, rfl⟩

/-- A directory below a path is listed among the names in that path. -/
theorem mem_namesIn_of_isDir_child (hfs : fs.Plain) (hname : IsPart name)
    (h : fs.isDir (d.child name) = true) : name ∈ fs.namesIn d := by
  obtain ⟨hleads, hdir⟩ := (isDir_iff hfs).1 h
  rw [fs.locate_child d hname] at hdir
  refine (mem_namesIn_iff hfs).2 ⟨?_, by rw [hdir]; simp⟩
  by_cases hempty : d.text.isEmpty = true
  · -- the name stands alone, so that the working directory is the one around it
    rw [if_pos hempty]
    have horigin := hleads.origin_dir
    have hd : d.isRooted = false := by
      rw [String.isEmpty_iff] at hempty
      rw [HostPath.isRooted, hempty]
      rfl
    rw [fs.origin_child d hname.toIsSegment, origin, hd, if_neg (by simp)] at horigin
    exact (isDir_iff hfs).2 ⟨⟨⟨by decide, by decide, by decide⟩, horigin, trivial⟩, horigin⟩
  · rw [if_neg hempty]
    exact isDir_of_exists_child hfs (mt String.isEmpty_iff.2 hempty) hname
      (exists?_of_isDir hfs h)

/-! ## Names that a disk can hold -/

/-- **A tree whose entries have names that a disk can hold.** There may be links in it. -/
def Named (fs : FileSystem) : Prop :=
  ∀ place name, fs.entryAt? (place ++ [name]) ≠ none → IsName name

theorem Plain.named (hfs : fs.Plain) : fs.Named := hfs.isName

/-- Whatever is listed is an entry of the tree, wherever links have led. -/
theorem Named.isName_of_mem_namesIn (hfs : fs.Named) (h : name ∈ fs.namesIn d) : IsName name := by
  rw [namesIn_eq] at h
  split at h
  · next listing hlist =>
      rw [readDir] at hlist
      split at hlist
      · cases hlist
      · next place es hstat =>
          cases hlist
          rw [List.map_map, List.mem_map] at h
          obtain ⟨⟨k, c⟩, hmem, rfl⟩ := h
          have hnode := node?_of_find hstat
          have hlookup : es.lookup k = some c :=
            (Node.Ordered.lookup_eq_some_iff (fs.ordered.get? hnode)).2 hmem
          refine hfs place k ?_
          rw [entryAt?_eq_map, node?, Node.get?_append]
          rw [node?] at hnode
          rw [hnode, Option.bind_some, Node.get?_cons, Node.child?, Node.entries, hlookup]
          simp
      · cases hlist
  · cases h

/-! ## One hop for each segment -/

variable {matcher : String → Except GlobFault (String → Bool)} {dirsOnly : Bool}

/-- **Whether a segment of a pattern lets a name through**: a segment without wildcard only
itself. -/
def Admits (matcher : String → Except GlobFault (String → Bool)) (segment name : String) : Prop :=
  if isPattern segment then ∃ accepts, matcher segment = .ok accepts ∧ accepts name = true
  else name = segment

theorem admits_iff_of_pattern (h : isPattern segment = true) :
    Admits matcher segment name
      ↔ ∃ accepts, matcher segment = .ok accepts ∧ accepts name = true := by
  rw [Admits, if_pos h]

theorem admits_iff_of_plain (h : ¬ isPattern segment = true) :
    Admits matcher segment name ↔ name = segment := by
  rw [Admits, if_neg h]

/-- **A hop from a directory to a name in it**, which a segment admits, when the segments
`rest` are still to come: a wildcard looks through the directory, a plain segment has to exist,
and what is gone on from is a directory. -/
structure Hop (fs : FileSystem) (matcher : String → Except GlobFault (String → Bool))
    (dirsOnly : Bool) (segment : String) (rest : List String) (d : HostPath) (name : String) :
    Prop where
  admits : Admits matcher segment name
  there : if isPattern segment then name ∈ fs.namesIn d else fs.exists? (d.child name) = true
  kept : rest ≠ [] ∨ dirsOnly = true → fs.isDir (d.child name) = true

/-- Every segment that admits the name of a directory leads there. -/
theorem Hop.of_isDir_child {rest : List String} (hfs : fs.Plain) (hname : IsPart name)
    (hadmits : Admits matcher segment name) (hdir : fs.isDir (d.child name) = true) :
    fs.Hop matcher dirsOnly segment rest d name := by
  refine ⟨hadmits, ?_, fun _ => hdir⟩
  by_cases hpat : isPattern segment = true
  · rw [if_pos hpat]
    exact mem_namesIn_of_isDir_child hfs hname hdir
  · rw [if_neg hpat]
    exact exists?_of_isDir hfs hdir

def hopNames (fs : FileSystem) (matcher : String → Except GlobFault (String → Bool))
    (dirsOnly : Bool) (segment : String) (rest : List String) (d : HostPath) : List String :=
  (if isPattern segment then
    match matcher segment with
    | .error _ => []
    | .ok accepts => (fs.namesIn d).filter accepts
  else [segment].filter fun s => fs.exists? (d.child s)).filter fun n =>
    (rest.isEmpty && !dirsOnly) || fs.isDir (d.child n)

theorem mem_hopNames {rest : List String} :
    name ∈ fs.hopNames matcher dirsOnly segment rest d
      ↔ fs.Hop matcher dirsOnly segment rest d name := by
  have hkeep : ((rest.isEmpty && !dirsOnly) || fs.isDir (d.child name)) = true
      ↔ (rest ≠ [] ∨ dirsOnly = true → fs.isDir (d.child name) = true) := by
    cases rest <;> cases dirsOnly <;> simp
  rw [hopNames, List.mem_filter, hkeep]
  -- a wildcard goes through what is listed, a plain segment looks its own name up
  by_cases hpat : isPattern segment = true
  · rw [if_pos hpat]
    constructor
    · rintro ⟨hmem, hk⟩
      cases hm : matcher segment with
      | error fault =>
          rw [hm] at hmem
          cases hmem
      | ok accepts =>
          rw [hm] at hmem
          obtain ⟨hthere, hacc⟩ := List.mem_filter.1 hmem
          exact ⟨(admits_iff_of_pattern hpat).2 ⟨accepts, hm, hacc⟩, by rwa [if_pos hpat], hk⟩
    · rintro ⟨hadm, hthere, hk⟩
      obtain ⟨accepts, hm, hacc⟩ := (admits_iff_of_pattern hpat).1 hadm
      rw [if_pos hpat] at hthere
      rw [hm]
      exact ⟨List.mem_filter.2 ⟨hthere, hacc⟩, hk⟩
  · rw [if_neg hpat, List.mem_filter, List.mem_singleton]
    constructor
    · rintro ⟨⟨rfl, hthere⟩, hk⟩
      exact ⟨(admits_iff_of_plain hpat).2 rfl, by rwa [if_neg hpat], hk⟩
    · rintro ⟨hadm, hthere, hk⟩
      rw [if_neg hpat] at hthere
      exact ⟨⟨(admits_iff_of_plain hpat).1 hadm, hthere⟩, hk⟩

def candidates (fs : FileSystem) (matcher : String → Except GlobFault (String → Bool))
    (dirsOnly : Bool) (segment : String) (rest : List String) (dirs : List HostPath) :
    List HostPath :=
  let keep := fun p => (rest.isEmpty && !dirsOnly) || fs.isDir p
  if isPattern segment then
    match matcher segment with
    | .error _ => []
    | .ok matches? => (fs.follow matches? dirs).filter keep
  else (dirs.map (·.child segment)).filter fun p => fs.exists? p && keep p

theorem candidates_eq (segment : String) (rest : List String) (dirs : List HostPath) :
    fs.candidates matcher dirsOnly segment rest dirs
      = dirs.flatMap fun d => (fs.hopNames matcher dirsOnly segment rest d).map d.child := by
  rw [candidates]
  by_cases hpat : isPattern segment = true
  · rw [if_pos hpat]
    simp only [hopNames, if_pos hpat]
    cases matcher segment with
    | error fault => simp
    | ok accepts =>
        dsimp only
        rw [follow, List.filter_flatMap]
        refine congrArg (dirs.flatMap ·) (funext fun d => ?_)
        rw [List.filter_map]
        rfl
  · rw [if_neg hpat]
    simp only [hopNames, if_neg hpat]
    induction dirs with
    | nil => rfl
    | cons d dirs ih =>
        rw [List.map_cons, List.filter_cons, List.flatMap_cons, ih, List.filter_cons,
          List.filter_nil]
        cases fs.exists? (d.child segment) with
        | false => rfl
        | true =>
            rw [Bool.true_and, if_pos rfl, List.filter_cons, List.filter_nil]
            split <;> rfl

theorem mem_candidates {rest : List String} {dirs : List HostPath} :
    q ∈ fs.candidates matcher dirsOnly segment rest dirs
      ↔ ∃ d ∈ dirs, ∃ name, fs.Hop matcher dirsOnly segment rest d name ∧ q = d.child name := by
  rw [candidates_eq, List.mem_flatMap]
  refine exists_congr fun d => and_congr_right fun _ => ?_
  rw [List.mem_map]
  exact exists_congr fun name => and_congr mem_hopNames eq_comm

theorem descend_nil_dirs (segments : List String) :
    (fs.descend matcher dirsOnly segments []).1 = [] := by
  cases segments with
  | nil => rfl
  | cons segment rest =>
      rw [descend]
      split
      · split
        · rfl
        · rfl
      · rfl

/-- The expansion goes on from what the first segment leads to. -/
theorem descend_cons (segment : String) (rest : List String) (dirs : List HostPath) :
    (fs.descend matcher dirsOnly (segment :: rest) dirs).1
      = (fs.descend matcher dirsOnly rest
          (fs.candidates matcher dirsOnly segment rest dirs)).1 := by
  -- an expansion that has nowhere to go on from stops, and finds what going on would find
  rw [descend, candidates]
  dsimp only
  by_cases hpat : isPattern segment = true
  · rw [if_pos hpat, if_pos hpat]
    cases matcher segment with
    | error fault => exact (descend_nil_dirs rest).symm
    | ok accepts =>
        dsimp only
        split
        · next hnil => rw [hnil, descend_nil_dirs]
        · rfl
  · rw [if_neg hpat, if_neg hpat]
    split
    · next hnil => rw [hnil, descend_nil_dirs]
    · rfl

/-- **A path is in an expansion exactly if one hop leads to where it can be reached by the rest
of the segments.** -/
theorem mem_descend_iff {segments : List String} {dirs : List HostPath} :
    q ∈ (fs.descend matcher dirsOnly segments dirs).1
      ↔ ∃ d ∈ dirs, q ∈ (fs.descend matcher dirsOnly segments [d]).1 := by
  -- what one segment leads to is a list of directories again, so all lists are taken at once
  induction segments generalizing dirs with
  | nil => simp [descend]
  | cons segment rest ih =>
      rw [descend_cons, ih]
      constructor
      · rintro ⟨n, hn, hq⟩
        obtain ⟨d, hd, name, hop, rfl⟩ := mem_candidates.1 hn
        refine ⟨d, hd, ?_⟩
        rw [descend_cons, ih]
        exact ⟨_, mem_candidates.2 ⟨d, List.mem_singleton_self d, name, hop, rfl⟩, hq⟩
      · rintro ⟨d, hd, hq⟩
        rw [descend_cons, ih] at hq
        obtain ⟨n, hn, hq⟩ := hq
        obtain ⟨d', hd', name, hop, rfl⟩ := mem_candidates.1 hn
        rw [List.mem_singleton.1 hd'] at hop hq
        exact ⟨_, mem_candidates.2 ⟨d, hd, name, hop, rfl⟩, hq⟩

theorem mem_descend_cons {rest : List String} :
    q ∈ (fs.descend matcher dirsOnly (segment :: rest) [d]).1
      ↔ ∃ name, fs.Hop matcher dirsOnly segment rest d name
        ∧ q ∈ (fs.descend matcher dirsOnly rest [d.child name]).1 := by
  rw [descend_cons, mem_descend_iff]
  constructor
  · rintro ⟨n, hn, hq⟩
    obtain ⟨d', hd', name, hop, rfl⟩ := mem_candidates.1 hn
    rw [List.mem_singleton.1 hd'] at hop hq
    exact ⟨name, hop, hq⟩
  · rintro ⟨name, hop, hq⟩
    exact ⟨_, mem_candidates.2 ⟨d, List.mem_singleton_self d, name, hop, rfl⟩, hq⟩

/-! ## Where matches are -/

theorem Hop.isPart {rest : List String} (hfs : fs.Plain)
    (hsegment : ¬ isPattern segment = true → IsPart segment)
    (h : fs.Hop matcher dirsOnly segment rest d name) : IsPart name := by
  have hthere := h.there
  by_cases hpat : isPattern segment = true
  · rw [if_pos hpat] at hthere
    exact (hfs.isName _ name ((mem_namesIn_iff hfs).1 hthere).2).toIsPart
  · rw [(admits_iff_of_plain hpat).1 h.admits]
    exact hsegment hpat

/-- **The place of a match spells out the names that the segments admitted.** -/
theorem locate_of_mem_descend (hfs : fs.Plain) {segments : List String}
    (hsegments : ∀ s ∈ segments, ¬ isPattern s = true → IsPart s)
    (h : q ∈ (fs.descend matcher dirsOnly segments [d]).1) :
    ∃ names, names.length = segments.length ∧ fs.locate q = fs.locate d ++ names := by
  induction segments generalizing d with
  | nil =>
      rw [descend, List.mem_singleton] at h
      exact ⟨[], rfl, by rw [h, List.append_nil]⟩
  | cons segment rest ih =>
      obtain ⟨name, hop, hq⟩ := mem_descend_cons.1 h
      have hname := hop.isPart hfs (hsegments segment List.mem_cons_self)
      obtain ⟨names, hlength, hplace⟩ := ih (fun s hs => hsegments s (List.mem_cons_of_mem _ hs)) hq
      refine ⟨name :: names, by rw [List.length_cons, List.length_cons, hlength], ?_⟩
      rw [hplace, fs.locate_child d hname, List.append_assoc, List.singleton_append]

theorem isDir_of_mem_descend (hfs : fs.Plain) {rest : List String} (hd : d.text ≠ "")
    (hsegment : ¬ isPattern segment = true → IsPart segment)
    (h : q ∈ (fs.descend matcher dirsOnly (segment :: rest) [d]).1) : fs.isDir d = true := by
  obtain ⟨name, hop, -⟩ := mem_descend_cons.1 h
  have hthere := hop.there
  by_cases hpat : isPattern segment = true
  · rw [if_pos hpat, mem_namesIn_iff hfs, if_neg (by rw [String.isEmpty_iff]; exact hd)] at hthere
    exact hthere.1
  · rw [if_neg hpat] at hthere
    exact isDir_of_exists_child hfs hd (hop.isPart hfs hsegment) hthere

/-- Plain segments in front of the others need not be looked up: what follows shows that they
lead to directories. -/
theorem mem_descend_append_iff (hfs : fs.Plain) {plain segments : List String}
    (hplain : ∀ s ∈ plain, ¬ isPattern s = true) (hsegments : segments ≠ [])
    (hparts : ∀ s ∈ plain ++ segments, ¬ isPattern s = true → IsPart s) :
    q ∈ (fs.descend matcher dirsOnly (plain ++ segments) [d]).1
      ↔ q ∈ (fs.descend matcher dirsOnly segments [plain.foldl HostPath.child d]).1 := by
  induction plain generalizing d with
  | nil => rfl
  | cons s rest ih =>
      have hs : ¬ isPattern s = true := hplain s List.mem_cons_self
      have hpart : IsPart s := hparts s List.mem_cons_self hs
      have hrest : ∀ t ∈ rest ++ segments, ¬ isPattern t = true → IsPart t := fun t ht =>
        hparts t (List.mem_cons_of_mem _ ht)
      rw [List.cons_append, mem_descend_cons, List.foldl_cons,
        ← ih (fun t ht => hplain t (List.mem_cons_of_mem _ ht)) hrest]
      constructor
      · rintro ⟨name, hop, hq⟩
        rw [(admits_iff_of_plain hs).1 hop.admits] at hq
        exact hq
      · intro hq
        -- the segment behind `s` has found something, so `s` is there to be looked up
        have hdir : fs.isDir (d.child s) = true := by
          obtain ⟨t, ts, hts⟩ : ∃ t ts, rest ++ segments = t :: ts :=
            List.exists_cons_of_ne_nil fun hnil => hsegments (List.append_eq_nil_iff.1 hnil).2
          rw [hts] at hq hrest
          exact isDir_of_mem_descend hfs (d.text_child_ne_empty hpart.toIsSegment)
            (hrest t List.mem_cons_self) hq
        refine ⟨s, ⟨(admits_iff_of_plain hs).2 rfl, ?_, fun _ => hdir⟩, hq⟩
        rw [if_neg hs]
        exact exists?_of_isDir hfs hdir

/-- **The expansion of a pattern below a root**, whose path has no wildcard, follows the
pattern's segments from the root. -/
theorem mem_expandWith_iff (matcher : String → Except GlobFault (String → Bool)) (hfs : fs.Plain)
    {pattern : HostPath} {segments : List String}
    (hpattern : isPattern pattern.text = true) (hsteps : pattern.steps = root.steps ++ segments)
    (hrooted : pattern.isRooted = root.isRooted)
    (hroot : ∀ s ∈ root.steps, ¬ isPattern s = true) (hwild : ∃ s ∈ segments, isPattern s = true)
    (hparts : ∀ s ∈ segments, IsPart s) (q : HostPath) :
    q ∈ (fs.expandWith matcher pattern).1
      ↔ q ∈ (fs.descend matcher pattern.endsWithSlash segments [root.rebuilt]).1 := by
  have hstop : ∀ s ∈ root.steps, (!isPattern s) = true := by
    intro s hs
    rw [Bool.not_eq_true', Bool.eq_false_iff]
    exact hroot s hs
  have hopen : segments.dropWhile (fun s => !isPattern s) ≠ [] := by
    obtain ⟨s, hs, hp⟩ := hwild
    intro hnil
    have hall := List.dropWhile_eq_nil_iff.1 hnil s hs
    rw [hp] at hall
    cases hall
  -- the cut is made in the segments of the pattern, since the root has no wildcard
  have hsplit : segments
      = segments.takeWhile (fun s => !isPattern s) ++ segments.dropWhile fun s => !isPattern s :=
    List.takeWhile_append_dropWhile.symm
  have hfold : (root.steps ++ segments.takeWhile fun s => !isPattern s).foldl HostPath.child
        ⟨if pattern.isRooted then "/" else ""⟩
      = (segments.takeWhile fun s => !isPattern s).foldl HostPath.child root.rebuilt := by
    rw [List.foldl_append, hrooted]
    rfl
  rw [expandWith, if_pos hpattern]
  dsimp only
  rw [hsteps, List.takeWhile_append_of_pos hstop, List.dropWhile_append_of_pos hstop, hfold]
  conv => rhs; rw [hsplit]
  refine (mem_descend_append_iff hfs (fun s hs => ?_) hopen fun s hs _ => ?_).symm
  · have hnot := List.mem_takeWhile_imp hs
    rw [Bool.not_eq_true', Bool.eq_false_iff] at hnot
    exact hnot
  · rw [← hsplit] at hs
    exact hparts s hs

theorem locate_rebuilt (fs : FileSystem) (p : HostPath) : fs.locate p.rebuilt = fs.locate p := by
  rw [locate, locate, origin, origin, HostPath.steps_rebuilt, HostPath.isRooted_rebuilt]

end FileSystem

end PackageScript
