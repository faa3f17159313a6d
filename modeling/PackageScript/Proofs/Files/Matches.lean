import Mathlib.Data.List.Nodup
import PackageScript.Proofs.Files.Dots
import PackageScript.Proofs.Files.Effects
import PackageScript.Proofs.Text.ByteOrder

set_option autoImplicit false

/-! # The rows of names that a pattern stands for

From its first wildcard on, each segment of a pattern stands for one name. A match is told by the
row of these names, and the expansion goes through the rows: `FileSystem.rows` lists them
directory by directory, and `descend_eq_rows` says that the expansion finds one path for each row.
What is in the list (`mem_rows_iff`) and how it is ordered (`rows_increasing`) then follow by
induction on the segments, for any tree, links included.
-/

namespace PackageScript

namespace HostPath

/-- The names of a path in front of the first wildcard. -/
def fixedSteps (p : HostPath) : List String := p.steps.takeWhile fun s => !isPattern s

/-- The names of a path from the first wildcard on. -/
def openSteps (p : HostPath) : List String := p.steps.dropWhile fun s => !isPattern s

/-- The path that the names in front of the first wildcard make, rooted like the whole path. -/
def fixedPath (p : HostPath) : HostPath :=
  p.fixedSteps.foldl child ⟨if p.isRooted then "/" else ""⟩

theorem isSegment_of_mem_openSteps {p : HostPath} {s : String} (h : s ∈ p.openSteps) :
    IsSegment s :=
  isSegment_of_mem_steps ((List.dropWhile_suffix _).subset h)

theorem mem_openSteps {p : HostPath} {s : String} (hs : s ∈ p.steps) (hpat : isPattern s = true) :
    s ∈ p.openSteps := by
  rw [← p.steps.takeWhile_append_dropWhile (p := fun s => !isPattern s)] at hs
  refine (List.mem_append.1 hs).resolve_left fun htake => ?_
  have hnot := List.mem_takeWhile_imp htake
  rw [hpat] at hnot
  cases hnot

/-- Below one path the names tell the paths apart. -/
theorem foldl_child_inj {a b : List String} (ha : ∀ n ∈ a, IsSegment n)
    (hb : ∀ n ∈ b, IsSegment n) {p : HostPath} (h : a.foldl child p = b.foldl child p) : a = b := by
  have hsteps : (a.foldl child p).steps = (b.foldl child p).steps := by rw [h]
  rw [steps_foldl_child ha, steps_foldl_child hb] at hsteps
  exact List.append_cancel_left hsteps

end HostPath

/-- A row of names comes before another: where they first differ, its name has the smaller
bytes. -/
def RowBefore (a b : List String) : Prop := List.Lex Text.BytesBefore a b

theorem not_rowBefore_self (a : List String) : ¬ RowBefore a a :=
  List.lex_irrefl Text.not_bytesBefore_self a

namespace FileSystem

variable {fs : FileSystem} {d : HostPath} {name segment : String} {rest row : List String}
variable {matcher : String → Except GlobFault (String → Bool)} {dirsOnly : Bool}

/-! ## The entries of a directory -/

/-- **A path leads to a directory that has an entry of a given name.** The empty path stands for
the working directory. -/
def Holds (fs : FileSystem) (d : HostPath) (name : String) : Prop :=
  ∃ place es, fs.stat (if d.text.isEmpty then ⟨"."⟩ else d) = .ok (place, .dir es)
    ∧ fs.entryAt? (place ++ [name]) ≠ none

theorem mem_fst_iff {place : Place} {es : List (String × Node)}
    (h : fs.node? place = some (.dir es)) :
    name ∈ es.map Prod.fst ↔ fs.entryAt? (place ++ [name]) ≠ none := by
  have hordered : (Node.dir es).Ordered := fs.ordered.get? h
  have hentry : fs.entryAt? (place ++ [name]) = (es.lookup name).map Node.entry := by
    rw [entryAt?_eq_map, node?, Node.get?_append]
    rw [node?] at h
    rw [h, Option.bind_some, Node.get?_cons, Node.child?, Node.entries]
    cases es.lookup name with
    | none => rfl
    | some c => rw [Option.bind_some, Node.get?_nil]
  rw [hentry, Ne, Option.map_eq_none_iff, ← Ne, Option.ne_none_iff_exists', List.mem_map]
  constructor
  · rintro ⟨⟨k, c⟩, hmem, rfl⟩
    exact ⟨c, hordered.lookup_eq_some_iff.2 hmem⟩
  · rintro ⟨c, hc⟩
    exact ⟨(name, c), hordered.lookup_eq_some_iff.1 hc, rfl⟩

theorem readDir_cases (fs : FileSystem) (p : HostPath) :
    (∃ place es, fs.stat p = .ok (place, .dir es) ∧ fs.node? place = some (.dir es)
        ∧ fs.readDir p = .ok (es.map fun e => (e.1, e.2.entry)))
      ∨ (∀ place es, fs.stat p ≠ .ok (place, .dir es)) ∧ ∃ e, fs.readDir p = .error e := by
  rw [readDir]
  cases hstat : fs.stat p with
  | error e => exact Or.inr ⟨fun _ _ h => (by cases h), e, rfl⟩
  | ok found =>
      obtain ⟨place, node⟩ := found
      cases node with
      | dir es => exact Or.inl ⟨place, es, rfl, node?_of_find hstat, rfl⟩
      | file b => exact Or.inr ⟨fun _ _ h => (by cases h), _, rfl⟩
      | link t => exact Or.inr ⟨fun _ _ h => (by cases h), _, rfl⟩

theorem mem_namesIn_iff_holds : name ∈ fs.namesIn d ↔ fs.Holds d name := by
  rw [namesIn_eq, Holds]
  generalize (if d.text.isEmpty then (⟨"."⟩ : HostPath) else d) = dir
  rcases fs.readDir_cases dir with ⟨place, es, hstat, hnode, hread⟩ | ⟨hnot, e, hread⟩
  · rw [hread, hstat]
    dsimp only
    rw [List.map_map]
    refine (mem_fst_iff hnode).trans ⟨fun h => ⟨place, es, rfl, h⟩, ?_⟩
    rintro ⟨place', es', heq, h⟩
    obtain ⟨rfl, -⟩ := Prod.mk.inj (Except.ok.inj heq)
    exact h
  · rw [hread]
    refine ⟨fun h => (by cases h), ?_⟩
    rintro ⟨place, es, hstat, -⟩
    exact absurd hstat (hnot place es)

theorem namesIn_increasing (fs : FileSystem) (d : HostPath) :
    (fs.namesIn d).Pairwise Text.BytesBefore := by
  rw [namesIn_eq]
  split
  · next hread => exact (readDir_increasing hread).imp Text.bytesBefore_of_lt
  · exact .nil

theorem hopNames_increasing (segment : String) (rest : List String) (d : HostPath) :
    (fs.hopNames matcher dirsOnly segment rest d).Pairwise Text.BytesBefore := by
  rw [hopNames]
  refine List.Pairwise.filter _ ?_
  split
  · split
    · exact .nil
    · exact (fs.namesIn_increasing d).filter _
  · exact (List.pairwise_singleton _ _).filter _

/-! ## Rows -/

/-- **A row of names answers a row of segments, one directory after the other.** For a wildcard
the name is that of an entry of the directory reached so far and matches, any other segment is
the name itself and has to exist, and what is gone on from is a directory. -/
inductive Answers (fs : FileSystem) (matcher : String → Except GlobFault (String → Bool))
    (dirsOnly : Bool) : HostPath → List String → List String → Prop
  | done (d : HostPath) : Answers fs matcher dirsOnly d [] []
  | wildcard {d : HostPath} {segment name : String} {rest names : List String}
      {accepts : String → Bool} : isPattern segment = true → fs.Holds d name →
      matcher segment = .ok accepts → accepts name = true →
      (rest ≠ [] ∨ dirsOnly = true → fs.isDir (d.child name) = true) →
      Answers fs matcher dirsOnly (d.child name) rest names →
      Answers fs matcher dirsOnly d (segment :: rest) (name :: names)
  | plain {d : HostPath} {segment : String} {rest names : List String} :
      ¬ isPattern segment = true → fs.exists? (d.child segment) = true →
      (rest ≠ [] ∨ dirsOnly = true → fs.isDir (d.child segment) = true) →
      Answers fs matcher dirsOnly (d.child segment) rest names →
      Answers fs matcher dirsOnly d (segment :: rest) (segment :: names)

theorem answers_cons_iff :
    fs.Answers matcher dirsOnly d (segment :: rest) row
      ↔ ∃ name names, row = name :: names ∧ fs.Hop matcher dirsOnly segment rest d name
        ∧ fs.Answers matcher dirsOnly (d.child name) rest names := by
  constructor
  · intro h
    cases h with
    | wildcard hpat hholds hm hacc hkept hrest =>
        refine ⟨_, _, rfl, ⟨(admits_iff_of_pattern hpat).2 ⟨_, hm, hacc⟩, ?_, hkept⟩, hrest⟩
        rw [if_pos hpat]
        exact mem_namesIn_iff_holds.2 hholds
    | plain hpat hexists hkept hrest =>
        refine ⟨_, _, rfl, ⟨(admits_iff_of_plain hpat).2 rfl, ?_, hkept⟩, hrest⟩
        rw [if_neg hpat]
        exact hexists
  · rintro ⟨name, names, rfl, ⟨hadmits, hthere, hkept⟩, hrest⟩
    by_cases hpat : isPattern segment = true
    · rw [if_pos hpat] at hthere
      obtain ⟨accepts, hm, hacc⟩ := (admits_iff_of_pattern hpat).1 hadmits
      exact .wildcard hpat (mem_namesIn_iff_holds.1 hthere) hm hacc hkept hrest
    · rw [if_neg hpat] at hthere
      obtain rfl := (admits_iff_of_plain hpat).1 hadmits
      exact .plain hpat hthere hkept hrest

def rows (fs : FileSystem) (matcher : String → Except GlobFault (String → Bool))
    (dirsOnly : Bool) : List String → HostPath → List (List String)
  | [], _ => [[]]
  | segment :: rest, d =>
      (fs.hopNames matcher dirsOnly segment rest d).flatMap fun name =>
        (rows fs matcher dirsOnly rest (d.child name)).map (name :: ·)

theorem descend_eq_rows (segments : List String) (dirs : List HostPath) :
    (fs.descend matcher dirsOnly segments dirs).1
      = dirs.flatMap fun d =>
          (fs.rows matcher dirsOnly segments d).map (·.foldl HostPath.child d) := by
  induction segments generalizing dirs with
  | nil =>
      rw [descend]
      exact (List.flatMap_singleton' dirs).symm
  | cons segment rest ih =>
      rw [descend_cons, ih, candidates_eq, List.flatMap_assoc]
      refine congrArg (dirs.flatMap ·) (funext fun d => ?_)
      rw [List.flatMap_map, rows, List.map_flatMap]
      refine congrArg (List.flatMap · _) (funext fun name => ?_)
      rw [List.map_map]
      rfl

theorem mem_rows_iff {segments : List String} :
    row ∈ fs.rows matcher dirsOnly segments d ↔ fs.Answers matcher dirsOnly d segments row := by
  induction segments generalizing d row with
  | nil =>
      rw [rows, List.mem_singleton]
      constructor
      · rintro rfl
        exact .done d
      · intro h
        cases h
        rfl
  | cons segment rest ih =>
      rw [rows, List.mem_flatMap, answers_cons_iff]
      constructor
      · rintro ⟨name, hname, hrow⟩
        obtain ⟨names, hnames, rfl⟩ := List.mem_map.1 hrow
        exact ⟨name, names, rfl, mem_hopNames.1 hname, ih.1 hnames⟩
      · rintro ⟨name, names, rfl, hhop, hnames⟩
        exact ⟨name, mem_hopNames.2 hhop, List.mem_map_of_mem (ih.2 hnames)⟩

/-- **The rows increase.** Rows with different first names are ordered by these, and rows with
the same first name by what follows. -/
theorem rows_increasing (segments : List String) (d : HostPath) :
    (fs.rows matcher dirsOnly segments d).Pairwise RowBefore := by
  induction segments generalizing d with
  | nil => exact List.pairwise_singleton _ _
  | cons segment rest ih =>
      rw [rows, List.pairwise_flatMap]
      constructor
      · intro name _
        rw [List.pairwise_map]
        exact (ih (d.child name)).imp List.Lex.cons
      · refine (hopNames_increasing segment rest d).imp fun {a b} hlt => ?_
        intro x hx y hy
        obtain ⟨xs, -, rfl⟩ := List.mem_map.1 hx
        obtain ⟨ys, -, rfl⟩ := List.mem_map.1 hy
        exact .rel hlt

theorem rows_nodup (segments : List String) (d : HostPath) :
    (fs.rows matcher dirsOnly segments d).Nodup := by
  refine (rows_increasing segments d).imp fun {a b} hbefore => ?_
  rintro rfl
  exact not_rowBefore_self a hbefore

/-! ## What rows are made of -/

theorem Answers.isSegment (hfs : fs.Named) {segments : List String}
    (h : fs.Answers matcher dirsOnly d segments row) (hsegments : ∀ s ∈ segments, IsSegment s) :
    ∀ n ∈ row, IsSegment n := by
  induction h with
  | done d => exact fun n hn => by cases hn
  | wildcard _ hholds _ _ _ _ ih =>
      have hname := hfs.isName_of_mem_namesIn (mem_namesIn_iff_holds.2 hholds)
      exact List.forall_mem_cons.2 ⟨hname.toIsSegment,
        ih fun s hs => hsegments s (List.mem_cons_of_mem _ hs)⟩
  | plain _ _ _ _ ih =>
      exact List.forall_mem_cons.2 ⟨hsegments _ List.mem_cons_self,
        ih fun s hs => hsegments s (List.mem_cons_of_mem _ hs)⟩

theorem Answers.matcher_eq_ok {segments : List String}
    (h : fs.Answers matcher dirsOnly d segments row) (hsegment : segment ∈ segments)
    (hpat : isPattern segment = true) : ∃ accepts, matcher segment = .ok accepts := by
  induction h with
  | done d => cases hsegment
  | wildcard _ _ hm _ _ _ ih =>
      rcases List.mem_cons.1 hsegment with rfl | hrest
      · exact ⟨_, hm⟩
      · exact ih hrest
  | plain hplain _ _ _ ih =>
      rcases List.mem_cons.1 hsegment with rfl | hrest
      · exact absurd hpat hplain
      · exact ih hrest

theorem expandWith_eq_map_rows (fs : FileSystem)
    (matcher : String → Except GlobFault (String → Bool)) {p : HostPath}
    (hp : isPattern p.text = true) :
    (fs.expandWith matcher p).1
      = (fs.rows matcher p.endsWithSlash p.openSteps p.fixedPath).map
        (·.foldl HostPath.child p.fixedPath) := by
  rw [expandWith, if_pos hp]
  exact (descend_eq_rows _ _).trans (List.flatMap_singleton _ _)

/-- **The expansion of a pattern lists its matches, each once and in order.** In any tree, the
paths are those that the rows of names spell below the part in front of the first wildcard: all
rows that answer the segments and no others, by increasing bytes. A segment that is no pattern
text leaves nothing. -/
theorem expandWith_eq_rows (matcher : String → Except GlobFault (String → Bool))
    (hfs : fs.Named) (p : HostPath) (hp : isPattern p.text = true) :
    (p.fixedPath.steps = p.fixedSteps ∧ p.fixedPath.isRooted = p.isRooted)
      ∧ (∃ rows : List (List String),
        (fs.expandWith matcher p).1 = rows.map (·.foldl HostPath.child p.fixedPath)
          ∧ (∀ row, row ∈ rows
            ↔ fs.Answers matcher p.endsWithSlash p.fixedPath p.openSteps row)
          ∧ rows.Pairwise RowBefore ∧ (fs.expandWith matcher p).1.Nodup)
      ∧ ((∃ segment ∈ p.steps, isPattern segment = true ∧ ∃ fault, matcher segment = .error fault)
        → (fs.expandWith matcher p).1 = []) := by
  have hfixed : ∀ s ∈ p.fixedSteps, IsSegment s := fun s hs =>
    HostPath.isSegment_of_mem_steps ((List.takeWhile_prefix _).subset hs)
  have hrows := fs.expandWith_eq_map_rows matcher hp
  refine ⟨⟨?_, ?_⟩, ⟨_, hrows, fun row => mem_rows_iff, rows_increasing _ _, ?_⟩, ?_⟩
  · rw [HostPath.fixedPath, HostPath.steps_foldl_child hfixed]
    cases p.isRooted <;> rfl
  · rw [HostPath.fixedPath, HostPath.isRooted_foldl_child hfixed]
    cases p.isRooted <;> rfl
  · rw [hrows]
    refine List.Nodup.map_on (fun a ha b hb h => ?_) (rows_nodup _ _)
    have hsegment : ∀ row ∈ fs.rows matcher p.endsWithSlash p.openSteps p.fixedPath,
        ∀ n ∈ row, IsSegment n := fun row hrow =>
      (mem_rows_iff.1 hrow).isSegment hfs fun s => HostPath.isSegment_of_mem_openSteps
    exact HostPath.foldl_child_inj (hsegment a ha) (hsegment b hb) h
  · rintro ⟨segment, hsegment, hpat, fault, hfault⟩
    rw [hrows, List.map_eq_nil_iff, List.eq_nil_iff_forall_not_mem]
    intro row hrow
    obtain ⟨accepts, hok⟩ := (mem_rows_iff.1 hrow).matcher_eq_ok
      (HostPath.mem_openSteps hsegment hpat) hpat
    rw [hfault] at hok
    cases hok

/-! ## A tree with a link -/

theorem Named.setLink (hfs : fs.Named) {dir : Place} (hdir : fs.entryAt? dir = some .dir)
    (hname : IsName name) (hnot : fs.entryAt? (dir ++ [name]) ≠ some .dir) (target : String) :
    (fs.setLink (dir ++ [name]) target).Named := by
  intro place n h
  have hentry : (fs.setLink (dir ++ [name]) target).entryAt? (place ++ [n])
      = if place ++ [n] = dir ++ [name] then some (.link target)
        else fs.entryAt? (place ++ [n]) := entryAt?_put rfl ⟨hdir, hname⟩ hnot _
  rw [hentry] at h
  split at h
  · next heq =>
      obtain rfl := List.singleton_inj.1 (List.append_inj' heq rfl).2
      exact hname
  · exact hfs place n h

def nestedCard : FileSystem := ((empty []).setDir ["a"]).setDir ["a", "b"]

theorem nestedCard_plain : nestedCard.Plain := by
  have houter : ((empty []).setDir ([] ++ ["a"])).Plain :=
    plain_empty.setDir rfl (by decide) rfl
  have hinner : (((empty []).setDir ["a"]).setDir (["a"] ++ ["b"])).Plain :=
    houter.setDir rfl (by decide) rfl
  exact hinner

/-- A directory with another one in it, and a link to the first. -/
def linkedCard : FileSystem :=
  (((empty []).setDir ["a"]).setDir ["a", "b"]).setLink ["c"] "a"

theorem linkedCard_named : linkedCard.Named := by
  have hlinked : (nestedCard.setLink ([] ++ ["c"]) "a").Named :=
    nestedCard_plain.named.setLink rfl (by decide) (fun h => by cases h) "a"
  exact hlinked

/-- The directory below is found both ways. -/
theorem linkedCard_expanded :
    linkedCard.Named ∧ isPattern "*/b" = true
      ∧ (linkedCard.expandWith Glob.matcher ⟨"*/b"⟩).1 = [⟨"a/b"⟩, ⟨"c/b"⟩]
      ∧ ∃ rows : List (List String),
        (linkedCard.expandWith Glob.matcher ⟨"*/b"⟩).1
            = rows.map (·.foldl HostPath.child (HostPath.fixedPath ⟨"*/b"⟩))
          ∧ rows.Pairwise RowBefore := by
  have hp : isPattern "*/b" = true := by decide
  obtain ⟨-, ⟨rows, hpaths, -, hincreasing, -⟩, -⟩ :=
    expandWith_eq_rows Glob.matcher linkedCard_named ⟨"*/b"⟩ hp
  exact ⟨linkedCard_named, hp, by decide +kernel, rows, hpaths, hincreasing⟩

/-! ## Paths that are too long -/

theorem fixedPath_of_rootDots {p : HostPath} {k : Nat} {names : List String}
    (hrooted : p.isRooted = true)
    (hsteps : p.steps = (HostPath.rootDots k).steps ++ "*" :: names) :
    p.fixedPath = HostPath.rootDots k ∧ p.openSteps = "*" :: names := by
  have hstar : isPattern "*" = true := by decide
  have hdots : ∀ s ∈ List.replicate k ".", (!isPattern s) = true := fun s hs => by
    rw [List.eq_of_mem_replicate hs]
    decide
  rw [HostPath.steps_rootDots] at hsteps
  constructor
  · rw [HostPath.fixedPath, HostPath.fixedSteps, hsteps, List.takeWhile_append_of_pos hdots,
      List.takeWhile_cons, hstar, hrooted, Bool.not_true, if_neg Bool.false_ne_true,
      List.append_nil, if_pos rfl, HostPath.rootDots, HostPath.behindDots, HostPath.rebuilt_slash]
  · rw [HostPath.openSteps, hsteps, List.dropWhile_append_of_pos hdots, List.dropWhile_cons, hstar,
      Bool.not_true, if_neg Bool.false_ne_true]

/-- Behind the dots a row of two names is found only where the path of the first is short
enough. -/
theorem short_of_mem_expandWith (hfs : fs.Plain) {p : HostPath} {k : Nat} {last : String}
    (hfixed : p.fixedPath = HostPath.rootDots k) (hopen : p.openSteps = ["*", last])
    (hpattern : isPattern p.text = true) (hnames : ∀ n ∈ [name, last], IsSegment n)
    (h : (p.fixedPath.child name).child last ∈ (fs.expandWith matcher p).1) :
    k * 2 + 2 < pathLimit := by
  rw [fs.expandWith_eq_map_rows matcher hpattern] at h
  obtain ⟨row, hrow, heq⟩ := List.mem_map.1 h
  have hrow := mem_rows_iff.1 hrow
  have hsegments := hrow.isSegment hfs.named fun s => HostPath.isSegment_of_mem_openSteps
  obtain rfl : row = [name, last] := HostPath.foldl_child_inj hsegments hnames heq
  rw [hopen, hfixed] at hrow
  -- the directory that is first in the row has to be looked into
  cases hrow with
  | wildcard _ _ _ _ hkept _ =>
      exact short_of_isDir_child_rootDots hfs (hnames name List.mem_cons_self)
        (hkept (Or.inl (List.cons_ne_nil _ _)))
  | plain hstar => exact absurd (by decide) hstar

/-- **A match whose path is too long is missed**, though its names lead from one directory to
the next. -/
theorem expandWith_of_long_path_misses :
    ¬ ∀ (fs : FileSystem) (p : HostPath) (name last : String), fs.Plain →
      p.openSteps = ["*", last] → fs.Holds p.fixedPath name →
      fs.entryAt? (fs.locate p.fixedPath ++ [name]) = some .dir →
      fs.entryAt? (fs.locate p.fixedPath ++ [name, last]) ≠ none →
      (p.fixedPath.child name).child last ∈ (fs.expandWith Glob.matcher p).1 := by
  intro hall
  have hopens : ∀ s ∈ ["*", "b"], IsSegment s := fun s hs =>
    ((by decide : ∀ s ∈ ["*", "b"], IsName s) s hs).toIsSegment
  have hnames : ∀ s ∈ ["a", "b"], IsSegment s := fun s hs =>
    ((by decide : ∀ s ∈ ["a", "b"], IsName s) s hs).toIsSegment
  have houter : nestedCard.entryAt? ([] ++ ["a"]) = some .dir := rfl
  have hinner : nestedCard.entryAt? ([] ++ ["a", "b"]) = some .dir := rfl
  have hlong : ∀ k, k * 2 + 1 < pathLimit → k * 2 + 2 < pathLimit := by
    intro k hshort
    have hsteps := (HostPath.rootDots k).steps_down hopens
    have hrooted : ((HostPath.rootDots k).down ["*", "b"]).isRooted = true := by
      rw [HostPath.isRooted_down _ hopens, HostPath.isRooted_rootDots]
    obtain ⟨hfixed, hopen⟩ := fixedPath_of_rootDots hrooted hsteps
    have hpattern : isPattern ((HostPath.rootDots k).down ["*", "b"]).text = true :=
      isPattern_text_iff.2 ⟨"*", by rw [hsteps]; simp, by decide⟩
    have hplace : nestedCard.locate (HostPath.rootDots k) = [] := nestedCard.locate_rootDots k
    have hdir := isDir_rootDots nestedCard_plain rfl hshort
    have hempty := mt String.isEmpty_iff.1 ((isDir_iff nestedCard_plain).1 hdir).1.usable.ne_empty
    have hholds : nestedCard.Holds (HostPath.rootDots k) "a" :=
      mem_namesIn_iff_holds.1 ((mem_namesIn_iff nestedCard_plain).2
        ⟨by rwa [if_neg hempty], by rw [hplace, houter]; simp⟩)
    exact short_of_mem_expandWith nestedCard_plain hfixed hopen hpattern hnames
      (hall nestedCard _ "a" "b" nestedCard_plain hopen (by rwa [hfixed])
        (by rw [hfixed, hplace, houter]) (by rw [hfixed, hplace, hinner]; simp))
  exact absurd (hlong 2047 (by decide)) (by decide)

end FileSystem

end PackageScript
