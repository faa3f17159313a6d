import Mathlib.Data.Set.Card
import PackageScript.Files.Mirror
import PackageScript.Proofs.Files.Below
import PackageScript.Proofs.Files.Extensionality

set_option autoImplicit false

/-! # What an inventory tells

An inventory tells every place of a tree once, what is above before what is below, and of each
whether a directory is there (`FileSystem.Lists`). So as many files are counted in it as stand in
the tree (`FileSystem.Lists.fileCount_eq`). A walk tells the whole inventory if the paths of all
directories are short enough to be listed (`FileSystem.mirrorEntries_eq`).
-/

namespace PackageScript

namespace MirrorEntry

def fileCount (entries : List MirrorEntry) : Nat := entries.countP fun e => !e.isDir

theorem fileCount_cons (e : MirrorEntry) (rest : List MirrorEntry) :
    fileCount (e :: rest) = fileCount [e] + fileCount rest := by
  rw [fileCount, fileCount, fileCount, ← List.countP_append, List.singleton_append]

/-- **What is above comes first**: nothing that is told later is at or above what was told. -/
def TopDown (entries : List MirrorEntry) : Prop :=
  entries.Pairwise fun a b => ¬ b.names <+: a.names

theorem TopDown.nodup_names {entries : List MirrorEntry} (h : TopDown entries) :
    (entries.map names).Nodup := by
  rw [List.Nodup, List.pairwise_map]
  exact h.imp fun {a b} hnot (heq : a.names = b.names) => hnot (heq ▸ List.prefix_rfl)

/-- **Counting entries counts places**, for no place is told twice. -/
theorem TopDown.countP_eq {entries : List MirrorEntry} (h : TopDown entries)
    (p : MirrorEntry → Bool) :
    (entries.countP p : ℕ∞) = {below | ∃ e ∈ entries, p e = true ∧ e.names = below}.encard := by
  have hnodup : ((entries.filter p).map names).Nodup :=
    TopDown.nodup_names (List.Pairwise.filter _ h)
  have hset : {below | ∃ e ∈ entries, p e = true ∧ e.names = below}
      = {below | below ∈ (entries.filter p).map names} := by
    ext below
    simp [and_assoc]
  rw [hset, ← List.coe_toFinset, Set.encard_coe_eq_coe_finsetCard,
    List.toFinset_card_of_nodup hnodup, List.length_map, List.countP_eq_length_filter]

theorem TopDown.under {entries : List MirrorEntry} (h : TopDown entries) (name : String) :
    TopDown (entries.map (·.under name)) := by
  rw [TopDown, List.pairwise_map]
  exact h.imp fun hnot hp => hnot (List.cons_prefix_cons.1 hp).2

end MirrorEntry

namespace Node

open MirrorEntry (TopDown)

theorem inventoryOf_eq_flatMap (es : List (String × Node)) :
    inventoryOf es = es.flatMap fun c => c.2.inventory.map (·.under c.1) := by
  induction es with
  | nil => rfl
  | cons c rest ih =>
      rw [List.flatMap_cons, ← ih]
      rfl

theorem inventory_dir (es : List (String × Node)) :
    (Node.dir es).inventory
      = ⟨[], true⟩ :: es.flatMap fun c => c.2.inventory.map (·.under c.1) := by
  rw [← inventoryOf_eq_flatMap]
  rfl

theorem mem_inventory_dir_iff {es : List (String × Node)} {name : String} {rest : Place}
    {isDir : Bool} :
    ⟨name :: rest, isDir⟩ ∈ (Node.dir es).inventory
      ↔ ∃ c, (name, c) ∈ es ∧ ⟨rest, isDir⟩ ∈ c.inventory := by
  rw [inventory_dir, List.mem_cons, List.mem_flatMap]
  constructor
  · rintro (heq | ⟨⟨k, c⟩, hmem, hunder⟩)
    · cases heq
    · obtain ⟨e, he, heq⟩ := List.mem_map.1 hunder
      cases heq
      exact ⟨c, hmem, he⟩
  · rintro ⟨c, hmem, he⟩
    exact Or.inr ⟨(name, c), hmem, List.mem_map.2 ⟨⟨rest, isDir⟩, he, rfl⟩⟩

/-- **An inventory tells all places of a tree and no others.** -/
theorem Ordered.mem_inventory_iff {n : Node} (h : n.Ordered) (names : Place) (isDir : Bool) :
    ⟨names, isDir⟩ ∈ n.inventory ↔ ∃ m, n.get? names = some m ∧ m.isDir = isDir := by
  induction h generalizing names with
  | file b =>
      cases names with
      | nil => simp [inventory, Node.isDir, eq_comm]
      | cons name rest => simp [inventory, get?_cons, child?, entries]
  | link t =>
      cases names with
      | nil => simp [inventory, Node.isDir, eq_comm]
      | cons name rest => simp [inventory, get?_cons, child?, entries]
  | dir es increasing inside ih =>
      have hes : Ordered (.dir es) := .dir es increasing inside
      cases names with
      | nil =>
          have hbelow : ⟨[], isDir⟩ ∉ inventoryOf es := by
            rw [inventoryOf_eq_flatMap, List.mem_flatMap]
            rintro ⟨c, -, hunder⟩
            obtain ⟨e, -, heq⟩ := List.mem_map.1 hunder
            cases heq
          simp [inventory, hbelow, Node.isDir, eq_comm]
      | cons name rest =>
          rw [mem_inventory_dir_iff, get?_cons]
          constructor
          · rintro ⟨c, hmem, he⟩
            obtain ⟨m, hm, hdir⟩ := (ih (name, c) hmem rest).1 he
            refine ⟨m, ?_, hdir⟩
            rw [child?, entries, hes.lookup_eq_some_iff.2 hmem]
            exact hm
          · rintro ⟨m, hm, hdir⟩
            obtain ⟨c, hc, hcm⟩ := Option.bind_eq_some_iff.1 hm
            have hmem : (name, c) ∈ es := hes.lookup_eq_some_iff.1 hc
            exact ⟨c, hmem, (ih (name, c) hmem rest).2 ⟨m, hcm, hdir⟩⟩

theorem Ordered.topDown_inventory {n : Node} (h : n.Ordered) : TopDown n.inventory := by
  induction h with
  | file b => exact List.pairwise_singleton _ _
  | link t => exact List.pairwise_singleton _ _
  | dir es increasing inside ih =>
      rw [inventory_dir, TopDown, List.pairwise_cons, List.pairwise_flatMap]
      refine ⟨fun e he hp => ?_, fun c hc => (ih c hc).under c.1, ?_⟩
      · obtain ⟨c, -, hunder⟩ := List.mem_flatMap.1 he
        obtain ⟨e', -, rfl⟩ := List.mem_map.1 hunder
        cases List.prefix_nil.1 hp
      · -- names increase, so that what is under one of them is not under another
        refine increasing.imp fun {a b} hlt x hx y hy hp => ?_
        obtain ⟨x', -, rfl⟩ := List.mem_map.1 hx
        obtain ⟨y', -, rfl⟩ := List.mem_map.1 hy
        have heq : b.1 = a.1 := (List.cons_prefix_cons.1 hp).1
        rw [heq] at hlt
        exact String.lt_irrefl _ hlt

end Node

namespace FileSystem

open MirrorEntry (TopDown fileCount)

variable {fs : FileSystem} {root : HostPath} {top : Place} {entries : List MirrorEntry}

/-- The files at or below a place, by the names that lead to them. -/
def filesBelow (fs : FileSystem) (top : Place) : Set Place :=
  {below | ∃ b, fs.entryAt? (top ++ below) = some (.file b)}

/-- **What an inventory of the tree at a place tells**: all directories and files in it, what is
above before what is below. -/
structure Lists (fs : FileSystem) (top : Place) (entries : List MirrorEntry) : Prop where
  dir_iff : ∀ below, ⟨below, true⟩ ∈ entries ↔ fs.entryAt? (top ++ below) = some .dir
  file_iff : ∀ below, ⟨below, false⟩ ∈ entries ↔ below ∈ fs.filesBelow top
  topDown : TopDown entries

theorem lists_inventory (hfs : fs.Plain) {n : Node} (hn : fs.node? top = some n) :
    fs.Lists top n.inventory := by
  have hordered : n.Ordered := fs.ordered.get? hn
  have hnode : ∀ below, fs.node? (top ++ below) = n.get? below := by
    intro below
    rw [node?, Node.get?_append]
    rw [node?] at hn
    rw [hn, Option.bind_some]
  refine ⟨fun below => ?_, fun below => ?_, hordered.topDown_inventory⟩
  · rw [hordered.mem_inventory_iff, entryAt?_eq_dir_iff, hnode]
    constructor
    · rintro ⟨m, hm, hdir⟩
      cases m with
      | dir es => exact ⟨es, hm⟩
      | file b => cases hdir
      | link t => cases hdir
    · rintro ⟨es, hes⟩
      exact ⟨.dir es, hes, rfl⟩
  · rw [hordered.mem_inventory_iff, filesBelow, Set.mem_ofPred_eq]
    simp only [entryAt?_eq_file_iff, hnode]
    constructor
    · rintro ⟨m, hm, hdir⟩
      cases m with
      | dir es => cases hdir
      | file b => exact ⟨b, hm⟩
      | link t =>
          have hlink : fs.entryAt? (top ++ below) = some (.link t) := by
            rw [entryAt?_eq_map, hnode, hm]
            rfl
          exact absurd hlink (hfs.no_link _ t)
    · rintro ⟨b, hb⟩
      exact ⟨.file b, hb, rfl⟩

namespace Lists

theorem ne_none (h : fs.Lists top entries) {e : MirrorEntry} (he : e ∈ entries) :
    fs.entryAt? (top ++ e.names) ≠ none := by
  obtain ⟨names, isDir⟩ := e
  cases isDir with
  | true =>
      rw [(h.dir_iff names).1 he]
      simp
  | false =>
      obtain ⟨b, hb⟩ := (h.file_iff names).1 he
      rw [hb]
      simp

theorem mem_names_iff (h : fs.Lists top entries) (hfs : fs.Plain) {below : Place} :
    below ∈ entries.map MirrorEntry.names ↔ fs.entryAt? (top ++ below) ≠ none := by
  rw [List.mem_map]
  constructor
  · rintro ⟨e, he, rfl⟩
    exact h.ne_none he
  · intro hne
    obtain ⟨x, hx⟩ := Option.ne_none_iff_exists'.1 hne
    rcases hfs.dir_or_file hx with rfl | ⟨b, rfl⟩
    · exact ⟨⟨below, true⟩, (h.dir_iff below).2 hx, rfl⟩
    · exact ⟨⟨below, false⟩, (h.file_iff below).2 ⟨b, hx⟩, rfl⟩

theorem above_mem {done rest : List MirrorEntry} {above : Place} {name : String} {isDir : Bool}
    (h : fs.Lists top (done ++ ⟨above ++ [name], isDir⟩ :: rest)) : ⟨above, true⟩ ∈ done := by
  have hthere := h.ne_none (e := ⟨above ++ [name], isDir⟩) (by simp)
  rw [← List.append_assoc] at hthere
  have htold := (h.dir_iff above).2 (dir_of_below hthere)
  obtain ⟨-, hlater, -⟩ := List.pairwise_append.1 h.topDown
  rw [List.mem_append, List.mem_cons] at htold
  rcases htold with hdone | heq | hrest
  · exact hdone
  · cases List.self_eq_append_right.1 (congrArg MirrorEntry.names heq)
  · exact absurd (List.prefix_append above [name]) ((List.pairwise_cons.1 hlater).1 _ hrest)

theorem names_not_mem {done rest : List MirrorEntry} {e : MirrorEntry}
    (h : fs.Lists top (done ++ e :: rest)) : e.names ∉ done.map MirrorEntry.names := by
  intro hmem
  obtain ⟨e', he', heq⟩ := List.mem_map.1 hmem
  obtain ⟨-, -, hearlier⟩ := List.pairwise_append.1 h.topDown
  exact hearlier e' he' e List.mem_cons_self (heq ▸ List.prefix_rfl)

/-- **As many files are counted as stand in the tree.** -/
theorem fileCount_eq (h : fs.Lists top entries) :
    (fileCount entries : ℕ∞) = (fs.filesBelow top).encard := by
  rw [fileCount, h.topDown.countP_eq]
  congr 1
  ext below
  rw [← h.file_iff]
  constructor
  · rintro ⟨⟨names, isDir⟩, hmem, hdir, rfl⟩
    cases isDir with
    | true => cases hdir
    | false => exact hmem
  · exact fun hmem => ⟨_, hmem, rfl, rfl⟩

end Lists

/-- **A walk tells the whole inventory** of a directory, if every directory in it can be
listed. -/
theorem mirrorEntries_eq (hfs : fs.Plain) (hdir : fs.isDir root = true) {n : Node}
    (hn : fs.node? (fs.locate root) = some n)
    (hlist : ∀ below, fs.entryAt? (fs.locate root ++ below) = some .dir →
      MirrorEntry.canList root below = true) :
    (fs.mirrorEntries root).1 = n.inventory := by
  obtain ⟨hleads, hentry⟩ := (isDir_iff hfs).1 hdir
  have hlists := lists_inventory hfs hn
  have hlstat : fs.lstat root = .ok (fs.locate root, n) := by
    obtain ⟨es, hes⟩ := entryAt?_eq_dir_iff.1 hentry
    rw [hn, Option.some.injEq] at hes
    rw [lstat_eq_ok_iff hfs, stat_eq_ok_iff hfs, hes]
    exact ⟨hleads, rfl, hes ▸ hn, fun _ => rfl⟩
  have hwalked : (MirrorEntry.walked root n.inventory).1 = n.inventory := by
    rw [MirrorEntry.walked, List.filter_eq_self]
    intro e he
    apply hlist
    -- around everything but the directory itself there is a directory
    by_cases hnil : e.names = []
    · rw [hnil, List.dropLast_nil, List.append_nil]
      exact hentry
    · exact dir_dropLast_of_below (hlists.ne_none he) hnil
  rw [mirrorEntries, hlstat]
  obtain ⟨es, hes⟩ := entryAt?_eq_dir_iff.1 hentry
  rw [hn, Option.some.injEq] at hes
  rw [hes] at hwalked ⊢
  exact hwalked

end FileSystem

end PackageScript
