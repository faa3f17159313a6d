import PackageScript.Files.Resolve
import PackageScript.Proofs.Path.Names

set_option autoImplicit false

/-! # Locations in a tree without links

The file system follows a path name by name and may stop at any of them. In a tree without
links the place where it arrives is known beforehand: it is the place that the names spell,
with `.` and `..` understood (`FileSystem.locate`). What is left to ask of the tree is whether
the way is open (`FileSystem.Leads`). Following a path (`resolve_eq_ok_iff`) and looking at what
it names (`find_eq_ok_iff`) are answered here from these two and from what stands at the place.
-/

namespace PackageScript

/-- The place that one more name of a path leads to, whatever stands there. -/
def Place.step (place : Place) (name : String) : Place :=
  if name = "." then place else if name = ".." then place.dropLast else place ++ [name]

theorem Place.step_of_isPart (place : Place) {name : String} (h : IsPart name) :
    Place.step place name = place ++ [name] := by
  rw [Place.step, if_neg h.ne_dot, if_neg h.ne_dots]

theorem Place.foldl_step_of_dots_not_mem {names : List String} (h : ".." ∉ names) (place : Place) :
    names.foldl Place.step place = place ++ names.filter (· != ".") := by
  induction names generalizing place with
  | nil => exact (List.append_nil place).symm
  | cons name rest ih =>
      obtain ⟨hname, hrest⟩ := List.ne_and_not_mem_of_not_mem_cons h
      rw [List.foldl_cons, ih hrest, Place.step]
      by_cases hdot : name = "."
      · rw [if_pos hdot, List.filter_cons_of_neg (by simp [hdot])]
      · rw [if_neg hdot, if_neg (Ne.symm hname), List.filter_cons_of_pos (by simp [hdot]),
          ← List.append_cons place name]

namespace FileSystem

variable {fs fs' : FileSystem} {p q : HostPath} {place : Place} {name : String}

/-! ## What stands above and below -/

theorem entryAt?_eq_map (fs : FileSystem) (place : Place) :
    fs.entryAt? place = (fs.node? place).map Node.entry := rfl

theorem entryAt?_eq_dir_iff :
    fs.entryAt? place = some .dir ↔ ∃ es, fs.node? place = some (.dir es) := by
  rw [entryAt?_eq_map, Option.map_eq_some_iff]
  constructor
  · rintro ⟨n, hn, he⟩
    cases n with
    | dir es => exact ⟨es, hn⟩
    | file b => cases he
    | link t => cases he
  · rintro ⟨es, hes⟩
    exact ⟨.dir es, hes, rfl⟩

theorem entryAt?_eq_file_iff {b : ByteArray} :
    fs.entryAt? place = some (.file b) ↔ fs.node? place = some (.file b) := by
  rw [entryAt?_eq_map, Option.map_eq_some_iff]
  constructor
  · rintro ⟨n, hn, he⟩
    cases n with
    | file c => cases he; exact hn
    | dir es => cases he
    | link t => cases he
  · exact fun h => ⟨_, h, rfl⟩

theorem entryAt?_eq_none_iff : fs.entryAt? place = none ↔ fs.node? place = none := by
  rw [entryAt?_eq_map, Option.map_eq_none_iff]

def contentAt (fs : FileSystem) (place : Place) : ByteArray :=
  match fs.entryAt? place with
  | some (.file b) => b
  | _ => .empty

theorem contentAt_congr (h : fs'.entryAt? place = fs.entryAt? place) :
    fs'.contentAt place = fs.contentAt place := by
  rw [contentAt, contentAt, h]

theorem contentAt_of_file {b : ByteArray} (h : fs.entryAt? place = some (.file b)) :
    fs.contentAt place = b := by
  rw [contentAt, h]

theorem dir_of_below {below : Place} (h : fs.entryAt? (place ++ name :: below) ≠ none) :
    fs.entryAt? place = some .dir := by
  obtain ⟨m, hm⟩ := Option.ne_none_iff_exists'.1 (mt entryAt?_eq_none_iff.2 h)
  obtain ⟨n, hn, hbelow⟩ := Node.get?_of_get?_append hm
  cases n with
  | dir es => exact entryAt?_eq_dir_iff.2 ⟨es, hn⟩
  | file b => simp [Node.get?_cons, Node.child?, Node.entries] at hbelow
  | link t => simp [Node.get?_cons, Node.child?, Node.entries] at hbelow

theorem entryAt?_below_none (h : fs.entryAt? place = none) (below : Place) :
    fs.entryAt? (place ++ below) = none := by
  cases below with
  | nil => rw [List.append_nil, h]
  | cons name below =>
      apply Decidable.byContradiction
      intro hne
      rw [dir_of_below hne] at h
      cases h

theorem dir_of_prefix {above : Place} (hp : above <+: place) (hne : above ≠ place)
    (h : fs.entryAt? place ≠ none) : fs.entryAt? above = some .dir := by
  obtain ⟨below, rfl⟩ := hp
  cases below with
  | nil => exact absurd (List.append_nil above).symm hne
  | cons name below => exact dir_of_below h

theorem dir_dropLast (h : fs.entryAt? place = some .dir) :
    fs.entryAt? place.dropLast = some .dir := by
  by_cases heq : place.dropLast = place
  · rw [heq]
    exact h
  · exact dir_of_prefix (List.dropLast_prefix place) heq (by rw [h]; simp)

theorem eq_nil_of_below_file {b : ByteArray} {below : Place}
    (hfile : fs.entryAt? place = some (.file b)) (h : fs.entryAt? (place ++ below) ≠ none) :
    below = [] := by
  cases below with
  | nil => rfl
  | cons name below =>
      have hdir := dir_of_below h
      rw [hfile] at hdir
      cases hdir

/-! ## Trees without links -/

/-- **A tree as a disk without links holds it.** Nothing in it is a link, and the names of its
entries are names that a disk can hold. -/
structure Plain (fs : FileSystem) : Prop where
  no_link : ∀ place target, fs.entryAt? place ≠ some (.link target)
  isName : ∀ place name, fs.entryAt? (place ++ [name]) ≠ none → IsName name

theorem Plain.dir_or_file (hfs : fs.Plain) {e : Entry} (h : fs.entryAt? place = some e) :
    e = .dir ∨ ∃ b, e = .file b := by
  cases e with
  | dir => exact Or.inl rfl
  | file b => exact Or.inr ⟨b, rfl⟩
  | link t => exact absurd h (hfs.no_link place t)

/-- **A place that an entry can have**: a name in a directory, used or not. -/
inductive Slot (fs : FileSystem) : Place → Prop
  | intro {dir : Place} {name : String} :
      fs.entryAt? dir = some .dir → IsName name → Slot fs (dir ++ [name])

theorem Slot.mono (h : fs.Slot place)
    (hdirs : ∀ p, fs.entryAt? p = some .dir → fs'.entryAt? p = some .dir) : fs'.Slot place := by
  cases h with
  | intro hdir hname => exact ⟨hdirs _ hdir, hname⟩

/-- **The places that a path can lead to**: the root and the slots. -/
inductive Reached (fs : FileSystem) : Place → Prop
  | root : fs.entryAt? [] = some .dir → Reached fs []
  | slot {place : Place} : fs.Slot place → Reached fs place

theorem Plain.reached_of_dir (hfs : fs.Plain) (h : fs.entryAt? place = some .dir) :
    fs.Reached place := by
  rcases List.eq_nil_or_concat place with rfl | ⟨dir, name, rfl⟩
  · exact .root h
  · rw [List.concat_eq_append] at h ⊢
    have hne : fs.entryAt? (dir ++ [name]) ≠ none := by rw [h]; simp
    exact .slot ⟨dir_of_below hne, hfs.isName dir name hne⟩

theorem Reached.slot_of_not_dir (h : fs.Reached place) (hnot : fs.entryAt? place ≠ some .dir) :
    fs.Slot place := by
  cases h with
  | root hdir => exact absurd hdir hnot
  | slot hslot => exact hslot

/-! ## The place that a path spells -/

/-- The place that a path starts from. -/
def origin (fs : FileSystem) (p : HostPath) : Place := if p.isRooted then [] else fs.home

/-- **The place that a path spells**, whether something stands there or not. -/
def locate (fs : FileSystem) (p : HostPath) : Place := p.steps.foldl Place.step (fs.origin p)

theorem origin_congr (hhome : fs'.home = fs.home) (p : HostPath) : fs'.origin p = fs.origin p := by
  rw [origin, origin, hhome]

theorem locate_congr (hhome : fs'.home = fs.home) (p : HostPath) : fs'.locate p = fs.locate p := by
  rw [locate, locate, origin_congr hhome]

theorem origin_child (fs : FileSystem) (p : HostPath) (h : IsSegment name) :
    fs.origin (p.child name) = fs.origin p := by
  rw [origin, origin, HostPath.isRooted_child p h]

theorem locate_child (fs : FileSystem) (p : HostPath) (h : IsPart name) :
    fs.locate (p.child name) = fs.locate p ++ [name] := by
  rw [locate, fs.origin_child p h.toIsSegment, HostPath.steps_child p h.toIsSegment,
    List.foldl_append, List.foldl_cons, List.foldl_nil, Place.step_of_isPart _ h]
  rfl

/-- The place that parts spell. The part `/` starts over at the root. -/
def locateParts (fs : FileSystem) (parts : List String) : Place :=
  parts.foldl (fun place part => if part = "/" then [] else Place.step place part) fs.home

theorem foldl_step_filter (names : List String) (place : Place) (h : ∀ n ∈ names, n ≠ "/") :
    (names.filter (· != ".")).foldl
        (fun place part => if part = "/" then [] else Place.step place part) place
      = names.foldl Place.step place := by
  induction names generalizing place with
  | nil => rfl
  | cons n rest ih =>
      have hn : n ≠ "/" := h n List.mem_cons_self
      have hrest : ∀ m ∈ rest, m ≠ "/" := fun m hm => h m (List.mem_cons_of_mem _ hm)
      -- a `.` that is dropped would have stayed where it is
      by_cases hdot : n = "."
      · rw [List.filter_cons_of_neg (by simp [hdot]), ih place hrest, List.foldl_cons, Place.step,
          if_pos hdot]
      · rw [List.filter_cons_of_pos (by simp [hdot]), List.foldl_cons, if_neg hn, ih _ hrest,
          List.foldl_cons]

/-- A path leads where its parts lead: the dots that comparisons drop do not matter. -/
theorem locate_eq_locateParts (fs : FileSystem) (p : HostPath) :
    fs.locate p = fs.locateParts p.parts := by
  have hslash : ∀ n ∈ p.steps, n ≠ "/" := by
    rintro n hn rfl
    exact (HostPath.isSegment_of_mem_steps hn).no_slash (by decide)
  rw [locate, locateParts, HostPath.parts, origin]
  by_cases hr : p.isRooted = true
  · rw [if_pos hr, if_pos hr, List.foldl_cons, if_pos rfl, foldl_step_filter _ _ hslash]
  · rw [if_neg hr, if_neg hr]
    cases hs : p.steps with
    | nil => rfl
    | cons first rest =>
        rw [hs] at hslash
        have hfirst := hslash first List.mem_cons_self
        have hrest : ∀ n ∈ rest, n ≠ "/" := fun n hn => hslash n (List.mem_cons_of_mem _ hn)
        -- in front of a relative path a `.` is kept as a part
        show _ = List.foldl _ _ (if first = "." then _ else _)
        by_cases hdot : first = "."
        · rw [if_pos hdot, List.foldl_cons, List.foldl_cons, foldl_step_filter _ _ hrest, hdot]
          rfl
        · rw [if_neg hdot, List.foldl_cons, List.foldl_cons, if_neg hfirst,
            foldl_step_filter _ _ hrest]

theorem locate_eq_of_same (fs : FileSystem) (h : p.same q = true) : fs.locate p = fs.locate q := by
  rw [HostPath.same, beq_iff_eq] at h
  rw [locate_eq_locateParts, locate_eq_locateParts, h]

/-- Paths to different places are not the same. -/
theorem same_eq_false_of_ne (fs : FileSystem) (h : fs.locate p ≠ fs.locate q) :
    p.same q = false := by
  rw [Bool.eq_false_iff]
  exact fun hsame => h (fs.locate_eq_of_same hsame)

/-! ## Whether the way is open -/

/-- Names that can be followed from a place: each is short, and each but the last one leads to
a directory. -/
def Walkable (fs : FileSystem) (place : Place) : List String → Prop
  | [] => True
  | name :: rest =>
      if name = "." then Walkable fs place rest
      else if name = ".." then Walkable fs place.dropLast rest
      else
        name.utf8ByteSize ≤ nameLimit
          ∧ (rest = [] ∨ fs.entryAt? (place ++ [name]) = some .dir
              ∧ Walkable fs (place ++ [name]) rest)

theorem Walkable.mono (hdirs : ∀ p, fs.entryAt? p = some .dir → fs'.entryAt? p = some .dir)
    {names : List String} (h : fs.Walkable place names) : fs'.Walkable place names := by
  induction names generalizing place with
  | nil => trivial
  | cons name rest ih =>
      unfold Walkable at h ⊢
      by_cases hdot : name = "."
      · rw [if_pos hdot] at h ⊢
        exact ih h
      · rw [if_neg hdot] at h ⊢
        by_cases hdots : name = ".."
        · rw [if_pos hdots] at h ⊢
          exact ih h
        · rw [if_neg hdots] at h ⊢
          exact ⟨h.1, h.2.imp id fun hw => ⟨hdirs _ hw.1, ih hw.2⟩⟩

/-- Names followed from a directory lead to a directory's entry or to the root. -/
theorem Walkable.reached (hfs : fs.Plain) {names : List String}
    (hnames : ∀ n ∈ names, IsSegment n ∧ '\x00' ∉ n.toList)
    (hdir : fs.entryAt? place = some .dir) (h : fs.Walkable place names) :
    fs.Reached (names.foldl Place.step place) := by
  induction names generalizing place with
  | nil => exact hfs.reached_of_dir hdir
  | cons name rest ih =>
      have hrest : ∀ n ∈ rest, IsSegment n ∧ '\x00' ∉ n.toList := fun n hn =>
        hnames n (List.mem_cons_of_mem _ hn)
      unfold Walkable at h
      rw [List.foldl_cons, Place.step]
      by_cases hdot : name = "."
      · rw [if_pos hdot] at h ⊢
        exact ih hrest hdir h
      · rw [if_neg hdot] at h ⊢
        by_cases hdots : name = ".."
        · rw [if_pos hdots] at h ⊢
          exact ih hrest (dir_dropLast hdir) h
        · rw [if_neg hdots] at h ⊢
          -- only the last name may be one under which nothing stands
          rcases h with ⟨hshort, rfl | ⟨hnext, hw⟩⟩
          · obtain ⟨hseg, hnul⟩ := hnames name List.mem_cons_self
            exact .slot ⟨hdir, ⟨hseg, hdot, hdots⟩, hnul, hshort⟩
          · exact ih hrest hnext hw

/-- A walk arrives exactly if its names can be followed, and then where they spell. -/
theorem walkWith_eq_ok_iff (hfs : fs.Plain)
    {jump : Stand fs.root → HostPath → List String → Bool → Except FileError Spot}
    {follow slash : Bool} {here : Stand fs.root} {names : List String} {spot : Spot} :
    fs.walkWith jump follow slash here names = .ok spot
      ↔ fs.Walkable here.place names ∧ spot = ⟨names.foldl Place.step here.place, slash⟩ := by
  induction names generalizing here with
  | nil =>
      rw [walkWith, Except.ok.injEq]
      exact ⟨fun h => ⟨trivial, h.symm⟩, fun h => h.2.symm⟩
  | cons name rest ih =>
      rw [walkWith, Walkable, List.foldl_cons, Place.step]
      by_cases hdot : name = "."
      · rw [if_pos hdot, if_pos hdot, if_pos hdot]
        exact ih
      rw [if_neg hdot, if_neg hdot, if_neg hdot]
      by_cases hdots : name = ".."
      · rw [if_pos hdots, if_pos hdots, if_pos hdots, ← here.place_up]
        exact ih
      rw [if_neg hdots, if_neg hdots, if_neg hdots]
      by_cases hlong : name.utf8ByteSize > nameLimit
      · rw [if_pos hlong]
        exact ⟨fun h => (by cases h), fun h => absurd h.1.1 (Nat.not_le.2 hlong)⟩
      rw [if_neg hlong]
      have hshort : name.utf8ByteSize ≤ nameLimit := Nat.not_lt.1 hlong
      cases hdown : here.down? name with
      | none =>
          -- nothing stands under the name: only the last name may lead there
          have hnone : fs.entryAt? (here.place ++ [name]) ≠ some .dir := by
            have hchild := Stand.down?_eq_none_iff.1 hdown
            rw [entryAt?_eq_map, node?, here.get?_place_append, Node.get?_cons, hchild]
            simp
          by_cases hrest : rest = []
          · simp [hrest, hshort, eq_comm]
          · simp [hrest, hnone]
      | some next =>
          obtain ⟨hplace, -⟩ := Stand.down?_eq_some hdown
          have hentry : fs.entryAt? (here.place ++ [name]) = some next.node.entry := by
            rw [← hplace, entryAt?_eq_map, node?, next.get?_place, Option.map_some]
          dsimp only
          cases hnode : next.node with
          | dir es =>
              dsimp only
              rw [ih, hplace, hentry, hnode]
              constructor
              · exact fun h => ⟨⟨hshort, Or.inr ⟨rfl, h.1⟩⟩, h.2⟩
              · rintro ⟨⟨-, rfl | h⟩, hspot⟩
                · exact ⟨trivial, hspot⟩
                · exact ⟨h.2, hspot⟩
          | link t =>
              -- there is no link, so the walk never jumps
              rw [hnode] at hentry
              exact absurd hentry (hfs.no_link _ t)
          | file b =>
              rw [hnode] at hentry
              by_cases hrest : rest = []
              · simp [hrest, hshort, hplace, eq_comm]
              · simp [hrest, hentry, Node.entry]

/-! ## What a path leads to -/

/-- Texts that the file system takes as paths. -/
structure Usable (p : HostPath) : Prop where
  no_nul : '\x00' ∉ p.text.toList
  ne_empty : p.text ≠ ""
  short : p.text.utf8ByteSize < pathLimit

/-- **A path whose way is open**: its text is taken, it starts from a directory, and its names
can be followed. Its last name need not exist. -/
structure Leads (fs : FileSystem) (p : HostPath) : Prop where
  usable : Usable p
  origin_dir : fs.entryAt? (fs.origin p) = some .dir
  walkable : fs.Walkable (fs.origin p) p.steps

theorem Leads.mono (hhome : fs'.home = fs.home)
    (hdirs : ∀ p, fs.entryAt? p = some .dir → fs'.entryAt? p = some .dir) (h : fs.Leads p) :
    fs'.Leads p := by
  refine ⟨h.usable, ?_, ?_⟩
  · rw [origin_congr hhome]
    exact hdirs _ h.origin_dir
  · rw [origin_congr hhome]
    exact h.walkable.mono hdirs

theorem Leads.reached (hfs : fs.Plain) (h : fs.Leads p) : fs.Reached (fs.locate p) := by
  refine h.walkable.reached hfs (fun n hn => ?_) h.origin_dir
  exact ⟨HostPath.isSegment_of_mem_steps hn, fun hnul =>
    h.usable.no_nul (HostPath.mem_of_mem_steps hn _ hnul)⟩

theorem Leads.slot (hfs : fs.Plain) (h : fs.Leads p)
    (hnot : fs.entryAt? (fs.locate p) ≠ some .dir) : fs.Slot (fs.locate p) :=
  (h.reached hfs).slot_of_not_dir hnot

theorem start?_eq_some {here : Stand fs.root} (h : fs.start? p = some here) :
    here.place = fs.origin p ∧ fs.entryAt? (fs.origin p) = some .dir := by
  obtain ⟨hfrom, hdir⟩ := Option.filter_eq_some_iff.1 h
  have hplace : here.place = fs.origin p := by
    rw [origin]
    by_cases hr : p.isRooted = true
    · rw [if_pos hr] at hfrom ⊢
      cases hfrom
      rfl
    · rw [if_neg hr] at hfrom ⊢
      exact Stand.place_ofPlace? hfrom
  refine ⟨hplace, ?_⟩
  rw [← hplace, entryAt?_eq_dir_iff, node?, here.get?_place]
  cases hnode : here.node with
  | dir es => exact ⟨es, rfl⟩
  | file b => rw [hnode] at hdir; cases hdir
  | link t => rw [hnode] at hdir; cases hdir

theorem start?_isSome (h : fs.entryAt? (fs.origin p) = some .dir) : (fs.start? p).isSome := by
  obtain ⟨es, hes⟩ := entryAt?_eq_dir_iff.1 h
  rw [origin] at hes
  rw [start?]
  by_cases hr : p.isRooted = true
  · rw [if_pos hr] at hes ⊢
    have hroot : fs.root = .dir es := by simpa [node?] using hes
    simp [Option.filter, Stand.top, hroot, Node.isDir]
  · rw [if_neg hr] at hes ⊢
    rw [Stand.ofPlace?]
    split
    · next n hn =>
        rw [node?, hn, Option.some.injEq] at hes
        simp [Option.filter, hes, Node.isDir]
    · next hn =>
        rw [node?, hn] at hes
        cases hes

theorem walk_eq_ok_iff (hfs : fs.Plain) {follow slash : Bool} {links : Nat}
    {here : Stand fs.root} {names : List String} {spot : Spot} :
    fs.walk follow links slash here names = .ok spot
      ↔ fs.Walkable here.place names ∧ spot = ⟨names.foldl Place.step here.place, slash⟩ := by
  cases links with
  | zero => exact walkWith_eq_ok_iff hfs
  | succ links => exact walkWith_eq_ok_iff hfs

/-- **Where a path leads without links**: an open way ends at the place that the path spells. -/
theorem resolve_eq_ok_iff (hfs : fs.Plain) {mode : Follow} {spot : Spot} :
    fs.resolve mode p = .ok spot ↔ fs.Leads p ∧ spot = ⟨fs.locate p, p.endsWithSlash⟩ := by
  unfold resolve
  -- first come the texts that are no paths, then a start that is no directory
  by_cases hnul : '\x00' ∈ p.text.toList
  · rw [if_pos (by simpa using hnul)]
    exact ⟨fun h => (by cases h), fun h => absurd hnul h.1.usable.no_nul⟩
  rw [if_neg (by simpa using hnul)]
  by_cases hempty : p.text = ""
  · rw [if_pos (by simp [hempty])]
    exact ⟨fun h => (by cases h), fun h => absurd hempty h.1.usable.ne_empty⟩
  rw [if_neg (by simpa using hempty)]
  by_cases hlong : p.text.utf8ByteSize ≥ pathLimit
  · rw [if_pos hlong]
    exact ⟨fun h => (by cases h), fun h => absurd h.1.usable.short (Nat.not_lt.2 hlong)⟩
  rw [if_neg hlong]
  cases hstart : fs.start? p with
  | none =>
      refine ⟨fun h => (by cases h), fun h => ?_⟩
      have hsome := start?_isSome h.1.origin_dir
      rw [hstart] at hsome
      cases hsome
  | some here =>
      obtain ⟨hplace, hdir⟩ := start?_eq_some hstart
      dsimp only
      rw [walk_eq_ok_iff hfs, hplace]
      constructor
      · exact fun h => ⟨⟨⟨hnul, hempty, Nat.not_le.1 hlong⟩, hdir, h.1⟩, h.2⟩
      · exact fun h => ⟨h.1.walkable, h.2⟩

theorem resolve_eq_ok (hfs : fs.Plain) {mode : Follow} (h : fs.Leads p) :
    fs.resolve mode p = .ok ⟨fs.locate p, p.endsWithSlash⟩ :=
  (resolve_eq_ok_iff hfs).2 ⟨h, rfl⟩

/-- **What a path names without links**: what stands at the place that it spells, which is a
directory if a slash was written behind it. -/
theorem find_eq_ok_iff (hfs : fs.Plain) {mode : Follow} {node : Node} :
    fs.find mode p = .ok (place, node)
      ↔ fs.Leads p ∧ place = fs.locate p ∧ fs.node? place = some node
        ∧ (p.endsWithSlash = true → node.isDir = true) := by
  rw [find]
  cases hres : fs.resolve mode p with
  | error e =>
      refine ⟨fun h => (by cases h), fun h => ?_⟩
      rw [resolve_eq_ok hfs h.1] at hres
      cases hres
  | ok spot =>
      obtain ⟨hleads, rfl⟩ := (resolve_eq_ok_iff hfs).1 hres
      dsimp only
      cases hnode : fs.node? (fs.locate p) with
      | none =>
          refine ⟨fun h => (by cases h), ?_⟩
          rintro ⟨-, rfl, hsome, -⟩
          rw [hnode] at hsome
          cases hsome
      | some n =>
          have hiff : ∀ place node, (fs.locate p, n) = (place, node)
              ↔ place = fs.locate p ∧ fs.node? place = some node := by
            intro place node
            rw [Prod.mk.injEq]
            constructor
            · rintro ⟨rfl, rfl⟩
              exact ⟨rfl, hnode⟩
            · rintro ⟨rfl, h⟩
              rw [hnode, Option.some.injEq] at h
              exact ⟨rfl, h⟩
          -- only at a file does the slash behind the path matter
          cases n with
          | dir es =>
              dsimp only
              rw [Except.ok.injEq, hiff]
              constructor
              · rintro ⟨rfl, h⟩
                refine ⟨hleads, rfl, h, fun _ => ?_⟩
                rw [hnode, Option.some.injEq] at h
                rw [← h]
                rfl
              · exact fun h => ⟨h.2.1, h.2.2.1⟩
          | file b =>
              dsimp only
              cases hslash : p.endsWithSlash with
              | true =>
                  refine ⟨fun h => (by cases h), ?_⟩
                  rintro ⟨-, rfl, h, hdir⟩
                  rw [hnode, Option.some.injEq] at h
                  rw [← h] at hdir
                  cases hdir rfl
              | false =>
                  rw [if_neg (by simp), Except.ok.injEq, hiff]
                  exact ⟨fun h => ⟨hleads, h.1, h.2, fun hf => (by cases hf)⟩,
                    fun h => ⟨h.2.1, h.2.2.1⟩⟩
          | link t =>
              have hlink : fs.entryAt? (fs.locate p) = some (.link t) := by
                rw [entryAt?_eq_map, hnode]
                rfl
              exact absurd hlink (hfs.no_link _ t)

end FileSystem

end PackageScript
