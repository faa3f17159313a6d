import PackageScript.Proofs.Files.Location

set_option autoImplicit false

/-! # What a tree without links answers

Each question about a path is answered by whether its way is open, by what stands at the place
that it spells, and by the slash behind it. Listing a directory tells every entry in it once.
-/

namespace PackageScript

namespace Node

/-! ## The entries of a directory -/

theorem Ordered.get? {n m : Node} {place : Place} (h : n.Ordered) (hm : n.get? place = some m) :
    m.Ordered := by
  induction place generalizing n with
  | nil =>
      rw [get?_nil, Option.some.injEq] at hm
      exact hm ▸ h
  | cons name rest ih =>
      rw [get?_cons] at hm
      obtain ⟨c, hc, hcm⟩ := Option.bind_eq_some_iff.1 hm
      exact ih (h.child hc) hcm

theorem Ordered.nodup {es : List (String × Node)} (h : Ordered (.dir es)) :
    (es.map Prod.fst).Nodup := by
  rw [List.Nodup, List.pairwise_map]
  refine h.increasing.imp fun {a b} hlt heq => ?_
  rw [heq] at hlt
  exact String.lt_irrefl _ hlt

theorem Ordered.lookup_eq_some_iff {es : List (String × Node)} (h : Ordered (.dir es))
    {name : String} {c : Node} : es.lookup name = some c ↔ (name, c) ∈ es := by
  have hnodup := h.nodup
  clear h
  induction es with
  | nil => simp
  | cons e es ih =>
      obtain ⟨k, v⟩ := e
      rw [List.map_cons, List.nodup_cons] at hnodup
      rw [lookup_entry_cons, List.mem_cons]
      by_cases hk : name = k
      · rw [if_pos hk, Option.some.injEq, Prod.mk.injEq]
        constructor
        · exact fun hv => Or.inl ⟨hk, hv.symm⟩
        · rintro (⟨-, hv⟩ | hmem)
          · exact hv.symm
          · exact absurd (List.mem_map.2 ⟨_, hmem, hk⟩) hnodup.1
      · rw [if_neg hk]
        refine (ih hnodup.2).trans ⟨Or.inr, ?_⟩
        -- a later entry is not hidden by the first one, whose name is another
        rintro (heq | hmem)
        · exact absurd (congrArg Prod.fst heq) hk
        · exact hmem

end Node

namespace FileSystem

variable {fs : FileSystem} {p : HostPath} {place : Place} {name : String}

/-! ## Questions with one answer -/

theorem stat_eq_ok_iff (hfs : fs.Plain) {node : Node} :
    fs.stat p = .ok (place, node)
      ↔ fs.Leads p ∧ place = fs.locate p ∧ fs.node? place = some node
        ∧ (p.endsWithSlash = true → node.isDir = true) :=
  find_eq_ok_iff hfs

theorem lstat_eq_ok_iff (hfs : fs.Plain) {node : Node} :
    fs.lstat p = .ok (place, node) ↔ fs.stat p = .ok (place, node) := by
  rw [lstat, stat, find_eq_ok_iff hfs, find_eq_ok_iff hfs]

theorem isDir_iff (hfs : fs.Plain) :
    fs.isDir p = true ↔ fs.Leads p ∧ fs.entryAt? (fs.locate p) = some .dir := by
  rw [entryAt?_eq_dir_iff, isDir]
  constructor
  · intro h
    split at h
    · next place es hstat =>
        obtain ⟨hleads, rfl, hnode, -⟩ := (stat_eq_ok_iff hfs).1 hstat
        exact ⟨hleads, es, hnode⟩
    · cases h
  · rintro ⟨hleads, es, hes⟩
    have hstat : fs.stat p = .ok (fs.locate p, .dir es) :=
      (stat_eq_ok_iff hfs).2 ⟨hleads, rfl, hes, fun _ => rfl⟩
    rw [hstat]

theorem isFile_iff (hfs : fs.Plain) :
    fs.isFile p = true
      ↔ fs.Leads p ∧ p.endsWithSlash = false
        ∧ ∃ b, fs.entryAt? (fs.locate p) = some (.file b) := by
  rw [isFile]
  constructor
  · intro h
    split at h
    · next place b hstat =>
        obtain ⟨hleads, rfl, hnode, hslash⟩ := (stat_eq_ok_iff hfs).1 hstat
        refine ⟨hleads, ?_, b, entryAt?_eq_file_iff.2 hnode⟩
        rw [Bool.eq_false_iff]
        exact fun hs => by cases hslash hs
    · cases h
  · rintro ⟨hleads, hslash, b, hb⟩
    have hstat : fs.stat p = .ok (fs.locate p, .file b) :=
      (stat_eq_ok_iff hfs).2 ⟨hleads, rfl, entryAt?_eq_file_iff.1 hb, fun hs => by
        rw [hslash] at hs
        cases hs⟩
    rw [hstat]

theorem isNonDir_eq_isFile (hfs : fs.Plain) : fs.isNonDir p = fs.isFile p := by
  rw [isNonDir, isFile]
  cases hstat : fs.stat p with
  | ok found =>
      obtain ⟨place, node⟩ := found
      rw [(lstat_eq_ok_iff hfs).2 hstat]
      cases node with
      | dir es => rfl
      | file b => rfl
      | link t =>
          obtain ⟨-, rfl, hnode, -⟩ := (stat_eq_ok_iff hfs).1 hstat
          have hlink : fs.entryAt? (fs.locate p) = some (.link t) := by
            rw [entryAt?_eq_map, hnode]
            rfl
          exact absurd hlink (hfs.no_link _ t)
  | error e =>
      cases hl : fs.lstat p with
      | error e' => rfl
      | ok found =>
          rw [(lstat_eq_ok_iff hfs).1 hl] at hstat
          cases hstat

theorem exists?_iff (hfs : fs.Plain) :
    fs.exists? p = true
      ↔ fs.Leads p ∧ fs.entryAt? (fs.locate p) ≠ none
        ∧ (p.endsWithSlash = true → fs.entryAt? (fs.locate p) = some .dir) := by
  rw [exists?]
  constructor
  · intro h
    cases hstat : fs.stat p with
    | error e => rw [hstat] at h; cases h
    | ok found =>
        obtain ⟨place, node⟩ := found
        obtain ⟨hleads, rfl, hnode, hslash⟩ := (stat_eq_ok_iff hfs).1 hstat
        refine ⟨hleads, ?_, fun hs => ?_⟩
        · rw [entryAt?_eq_map, hnode]
          simp
        · have hdir := hslash hs
          cases node with
          | dir es => exact entryAt?_eq_dir_iff.2 ⟨es, hnode⟩
          | file b => cases hdir
          | link t => cases hdir
  · rintro ⟨hleads, hne, hslash⟩
    obtain ⟨node, hnode⟩ := Option.ne_none_iff_exists'.1 (mt entryAt?_eq_none_iff.2 hne)
    have hdir : p.endsWithSlash = true → node.isDir = true := by
      intro hs
      obtain ⟨es, hes⟩ := entryAt?_eq_dir_iff.1 (hslash hs)
      rw [hnode, Option.some.injEq] at hes
      rw [hes]
      rfl
    rw [(stat_eq_ok_iff hfs).2 ⟨hleads, rfl, hnode, hdir⟩]
    rfl

/-! ## Listing a directory -/

theorem readDir_eq_ok (hfs : fs.Plain) {listing : List (String × Entry)}
    (h : fs.readDir p = .ok listing) :
    fs.Leads p ∧ ∃ es, fs.node? (fs.locate p) = some (.dir es)
      ∧ listing = es.map fun e => (e.1, e.2.entry) := by
  rw [readDir] at h
  split at h
  · cases h
  · next place es hstat =>
      obtain ⟨hleads, rfl, hnode, -⟩ := (stat_eq_ok_iff hfs).1 hstat
      exact ⟨hleads, es, hnode, (Except.ok.inj h).symm⟩
  · cases h

theorem readDir_isOk (hfs : fs.Plain) (hleads : fs.Leads p)
    (hdir : fs.entryAt? (fs.locate p) = some .dir) : ∃ listing, fs.readDir p = .ok listing := by
  obtain ⟨es, hes⟩ := entryAt?_eq_dir_iff.1 hdir
  refine ⟨es.map fun e => (e.1, e.2.entry), ?_⟩
  rw [readDir, (stat_eq_ok_iff hfs).2 ⟨hleads, rfl, hes, fun _ => rfl⟩]

theorem dir_of_readDir (hfs : fs.Plain) {listing : List (String × Entry)}
    (h : fs.readDir p = .ok listing) : fs.entryAt? (fs.locate p) = some .dir := by
  obtain ⟨-, es, hes, -⟩ := readDir_eq_ok hfs h
  exact entryAt?_eq_dir_iff.2 ⟨es, hes⟩

/-- **A listing is complete and true**: it tells a name with what stands under it, for each name
under which something stands. -/
theorem mem_readDir (hfs : fs.Plain) {listing : List (String × Entry)}
    (h : fs.readDir p = .ok listing) {e : Entry} :
    (name, e) ∈ listing ↔ fs.entryAt? (fs.locate p ++ [name]) = some e := by
  obtain ⟨-, es, hes, rfl⟩ := readDir_eq_ok hfs h
  have hordered : (Node.dir es).Ordered := fs.ordered.get? hes
  have hentry : fs.entryAt? (fs.locate p ++ [name]) = (es.lookup name).map Node.entry := by
    rw [entryAt?, Node.entryAt?, Node.get?_append]
    rw [node?] at hes
    rw [hes, Option.bind_some, Node.get?_cons]
    show ((es.lookup name).bind _).map _ = _
    cases es.lookup name <;> simp
  rw [hentry, Option.map_eq_some_iff, List.mem_map]
  constructor
  · rintro ⟨⟨k, c⟩, hmem, heq⟩
    obtain ⟨rfl, rfl⟩ := Prod.mk.inj heq
    exact ⟨c, hordered.lookup_eq_some_iff.2 hmem, rfl⟩
  · rintro ⟨c, hc, rfl⟩
    exact ⟨(name, c), hordered.lookup_eq_some_iff.1 hc, rfl⟩

theorem nodup_readDir (hfs : fs.Plain) {listing : List (String × Entry)}
    (h : fs.readDir p = .ok listing) : (listing.map Prod.fst).Nodup := by
  obtain ⟨-, es, hes, rfl⟩ := readDir_eq_ok hfs h
  rw [List.map_map]
  exact (fs.ordered.get? hes : (Node.dir es).Ordered).nodup

theorem isName_of_mem_readDir (hfs : fs.Plain) {listing : List (String × Entry)}
    (h : fs.readDir p = .ok listing) {e : Entry} (hmem : (name, e) ∈ listing) : IsName name := by
  refine hfs.isName (fs.locate p) name ?_
  rw [(mem_readDir hfs h).1 hmem]
  simp

end FileSystem

end PackageScript
