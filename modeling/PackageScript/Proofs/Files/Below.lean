import PackageScript.Proofs.Files.Queries
import PackageScript.Proofs.Path.Parts

set_option autoImplicit false

/-! # Paths below and around a directory

Below an open path that leads to a directory every name that a directory can hold leads on
(`FileSystem.Leads.down`), as long as the text stays short enough to be a path at all. The
path that the parts of an open path make is open too, and leads to the same place
(`FileSystem.Leads.ofParts`): this is the directory around a path, as the making of parents sees
it.
-/

namespace PackageScript

theorem Place.prefix_step (place : Place) {name : String} (h : name ≠ "..") :
    place <+: place.step name := by
  by_cases hdot : name = "."
  · have hstay : place.step name = place := if_pos hdot
    exact hstay.symm ▸ List.prefix_rfl
  · rw [Place.step, if_neg hdot, if_neg h]
    exact List.prefix_append _ _

namespace FileSystem

variable {fs : FileSystem} {p q : HostPath} {place : Place} {name : String}

theorem Plain.isName_of_below (hfs : fs.Plain) {below : Place}
    (h : fs.entryAt? (place ++ below) ≠ none) : ∀ n ∈ below, IsName n := by
  induction below generalizing place with
  | nil => simp
  | cons name rest ih =>
      have hname : fs.entryAt? (place ++ [name]) ≠ none := by
        cases rest with
        | nil => exact h
        | cons next rest =>
            rw [List.append_cons] at h
            rw [dir_of_below h]
            simp
      rw [List.append_cons] at h
      intro n hn
      rcases List.mem_cons.1 hn with rfl | hn
      · exact hfs.isName place n hname
      · exact ih h n hn

/-! ## Where they lead -/

theorem locate_down (fs : FileSystem) (p : HostPath) {names : List String}
    (h : ∀ n ∈ names, IsPart n) : fs.locate (p.down names) = fs.locate p ++ names := by
  have hsegments : ∀ n ∈ names, IsSegment n := fun n hn => (h n hn).toIsSegment
  have hkeep : names.filter (· != ".") = names :=
    List.filter_eq_self.2 fun n hn => by simpa using (h n hn).ne_dot
  rw [locate, origin, HostPath.isRooted_down p hsegments, HostPath.steps_down p hsegments,
    List.foldl_append, Place.foldl_step_of_dots_not_mem fun hd => (h _ hd).ne_dots rfl, hkeep]
  rfl

theorem locate_ofParts (fs : FileSystem) {ps : List String} (h : ps <+: p.parts) :
    fs.locate (.ofParts ps) = fs.locateParts ps := by
  rw [locate_eq_locateParts, HostPath.parts_ofParts h]

theorem locate_ofParts_parts (fs : FileSystem) (p : HostPath) :
    fs.locate (.ofParts p.parts) = fs.locate p := by
  rw [fs.locate_ofParts List.prefix_rfl, ← locate_eq_locateParts]

theorem locate_ofParts_prefix (fs : FileSystem) {ps : List String} {last : String}
    (h : p.parts = ps ++ [last]) (hps : ps ≠ []) (hlast : last ≠ "..") :
    fs.locate (.ofParts ps) <+: fs.locate p := by
  have hsegment := HostPath.isSegment_of_parts_eq h hps
  have hslash : last ≠ "/" := by
    rintro rfl
    exact hsegment.no_slash (by decide)
  rw [fs.locate_ofParts (by rw [h]; exact List.prefix_append ps _), fs.locate_eq_locateParts p, h,
    locateParts, locateParts, List.foldl_append, List.foldl_cons, List.foldl_nil, if_neg hslash]
  exact Place.prefix_step _ hlast

theorem origin_ofParts (fs : FileSystem) {ps : List String} (h : ps <+: p.parts) (hps : ps ≠ []) :
    fs.origin (.ofParts ps) = fs.origin p := by
  have hrooted : (HostPath.ofParts ps).isRooted = p.isRooted := by
    rw [Bool.eq_iff_iff, HostPath.isRooted_iff_head?_parts, HostPath.isRooted_iff_head?_parts,
      HostPath.parts_ofParts h]
    obtain ⟨more, hmore⟩ := h
    cases ps with
    | nil => exact absurd rfl hps
    | cons first more' => rw [← hmore, List.cons_append, List.head?_cons, List.head?_cons]
  rw [origin, origin, hrooted]

/-! ## Whether they are open -/

theorem Walkable.append {a b : List String} (h : fs.Walkable place a)
    (hdir : fs.entryAt? (a.foldl Place.step place) = some .dir)
    (hb : fs.Walkable (a.foldl Place.step place) b) : fs.Walkable place (a ++ b) := by
  induction a generalizing place with
  | nil => exact hb
  | cons n rest ih =>
      rw [List.foldl_cons, Place.step] at hdir hb
      rw [List.cons_append]
      unfold Walkable at h ⊢
      by_cases hdot : n = "."
      · rw [if_pos hdot] at h hdir hb ⊢
        exact ih h hdir hb
      rw [if_neg hdot] at h hdir hb ⊢
      by_cases hdots : n = ".."
      · rw [if_pos hdots] at h hdir hb ⊢
        exact ih h hdir hb
      rw [if_neg hdots] at h hdir hb ⊢
      refine ⟨h.1, Or.inr ?_⟩
      rcases h.2 with rfl | ⟨hnext, hw⟩
      · exact ⟨hdir, hb⟩
      · exact ⟨hnext, ih hw hdir hb⟩

theorem walkable_dots (fs : FileSystem) (place : Place) (k : Nat) :
    fs.Walkable place (List.replicate k ".") := by
  induction k with
  | zero => trivial
  | succ k ih =>
      rw [List.replicate_succ]
      unfold Walkable
      rw [if_pos rfl]
      exact ih

/-- Dots are passed over. -/
theorem Walkable.filter {names : List String} (h : fs.Walkable place names) :
    fs.Walkable place (names.filter (· != ".")) := by
  induction names generalizing place with
  | nil => trivial
  | cons n rest ih =>
      unfold Walkable at h
      by_cases hdot : n = "."
      · rw [if_pos hdot] at h
        rw [List.filter_cons_of_neg (by simp [hdot])]
        exact ih h
      rw [if_neg hdot] at h
      rw [List.filter_cons_of_pos (by simp [hdot])]
      unfold Walkable
      rw [if_neg hdot]
      by_cases hdots : n = ".."
      · rw [if_pos hdots] at h ⊢
        exact ih h
      rw [if_neg hdots] at h ⊢
      refine ⟨h.1, ?_⟩
      rcases h.2 with rfl | ⟨hnext, hw⟩
      · exact Or.inl rfl
      · exact Or.inr ⟨hnext, ih hw⟩

/-- The parts of a path that is not rooted keep at most the dot in front. -/
theorem Walkable.parts (h : fs.Walkable place p.steps) (hrooted : p.isRooted = false) :
    fs.Walkable place p.parts := by
  rw [HostPath.parts, if_neg (by simp [hrooted])]
  cases hs : p.steps with
  | nil => trivial
  | cons first rest =>
      rw [hs] at h
      have hfilter := h.filter
      dsimp only
      by_cases hdot : first = "."
      · rw [List.filter_cons_of_neg (by simp [hdot])] at hfilter
        rw [if_pos hdot]
        unfold Walkable
        rw [if_pos rfl]
        exact hfilter
      · rw [List.filter_cons_of_pos (by simp [hdot])] at hfilter
        rw [if_neg hdot]
        exact hfilter

/-- Names lead down from a directory if all but the last of them lead to directories. -/
theorem walkable_of_dir {names : List String} (hnames : ∀ n ∈ names, IsName n)
    (hdir : names ≠ [] → fs.entryAt? (place ++ names.dropLast) = some .dir) :
    fs.Walkable place names := by
  induction names generalizing place with
  | nil => trivial
  | cons n rest ih =>
      have hn : IsName n := hnames n List.mem_cons_self
      unfold Walkable
      rw [if_neg hn.ne_dot, if_neg hn.ne_dots]
      refine ⟨hn.short, ?_⟩
      cases rest with
      | nil => exact Or.inl rfl
      | cons m more =>
          have hbelow := hdir (List.cons_ne_nil _ _)
          rw [List.dropLast_cons_of_ne_nil (List.cons_ne_nil m more), List.append_cons] at hbelow
          refine Or.inr ⟨?_, ih (fun k hk => hnames k (List.mem_cons_of_mem _ hk))
            fun _ => hbelow⟩
          cases hlast : (m :: more).dropLast with
          | nil =>
              rw [hlast, List.append_nil] at hbelow
              exact hbelow
          | cons k ks =>
              rw [hlast] at hbelow
              exact dir_of_below (by rw [hbelow]; simp)

/-- **Names below an open path that leads to a directory.** All but the last of them have to lead
to directories too, and the text has to stay short. -/
theorem Leads.down {names : List String} (h : fs.Leads p) (hnames : ∀ n ∈ names, IsName n)
    (hdir : fs.entryAt? (fs.locate p) = some .dir)
    (habove : names ≠ [] → fs.entryAt? (fs.locate p ++ names.dropLast) = some .dir)
    (hshort : (p.down names).text.utf8ByteSize < pathLimit) : fs.Leads (p.down names) := by
  have hsegments : ∀ n ∈ names, IsSegment n := fun n hn => (hnames n hn).toIsSegment
  have htext : (p.down names).text = p.text ++ p.gap ++ "/".intercalate names := by
    rw [HostPath.down, HostPath.join_eq p (HostPath.isRooted_ofNames hsegments)]
  have horigin : fs.origin (p.down names) = fs.origin p := by
    rw [origin, origin, HostPath.isRooted_down p hsegments]
  refine ⟨⟨fun hnul => ?_, fun hempty => ?_, hshort⟩, ?_, ?_⟩
  · rw [htext, String.toList_append, String.toList_append, List.mem_append, List.mem_append] at hnul
    rcases hnul with (hnul | hnul) | hnul
    · exact h.usable.no_nul hnul
    · rw [HostPath.gap] at hnul
      split at hnul
      · cases hnul
      · exact absurd hnul (by decide)
    · rcases Text.mem_intercalate hnul with hslash | ⟨n, hn, hmem⟩
      · exact absurd hslash (by decide)
      · exact (hnames n hn).no_nul hmem
  · rw [htext, ← String.toList_eq_nil_iff, String.toList_append, String.toList_append,
      List.append_eq_nil_iff, List.append_eq_nil_iff] at hempty
    exact h.usable.ne_empty (String.toList_eq_nil_iff.1 hempty.1.1)
  · rw [horigin]
    exact h.origin_dir
  · rw [horigin, HostPath.steps_down p hsegments]
    exact h.walkable.append hdir (walkable_of_dir hnames habove)

theorem dir_dropLast_of_below {below : Place} (h : fs.entryAt? (place ++ below) ≠ none)
    (hne : below ≠ []) : fs.entryAt? (place ++ below.dropLast) = some .dir := by
  obtain ⟨above, name, rfl⟩ := (List.eq_nil_or_concat below).resolve_left hne
  rw [List.concat_eq_append, ← List.append_assoc] at h
  rw [List.concat_eq_append, List.dropLast_concat]
  exact dir_of_below h

theorem leads_down (hfs : fs.Plain) (h : fs.isDir p = true) {names : List String}
    (hthere : fs.entryAt? (fs.locate p ++ names) ≠ none)
    (hshort : (p.down names).text.utf8ByteSize < pathLimit) :
    fs.Leads (p.down names) ∧ fs.locate (p.down names) = fs.locate p ++ names := by
  obtain ⟨hleads, hdir⟩ := (isDir_iff hfs).1 h
  have hnames := hfs.isName_of_below hthere
  exact ⟨hleads.down hnames hdir (dir_dropLast_of_below hthere) hshort,
    fs.locate_down p fun n hn => (hnames n hn).toIsPart⟩

theorem isDir_down (hfs : fs.Plain) (h : fs.isDir p = true) {names : List String}
    (hdir : fs.entryAt? (fs.locate p ++ names) = some .dir)
    (hshort : (p.down names).text.utf8ByteSize < pathLimit) : fs.isDir (p.down names) = true := by
  obtain ⟨hleads, hplace⟩ := leads_down hfs h (by rw [hdir]; simp) hshort
  exact (isDir_iff hfs).2 ⟨hleads, by rw [hplace, hdir]⟩

theorem isFile_down (hfs : fs.Plain) (h : fs.isDir p = true) {names : List String} {b : ByteArray}
    (hfile : fs.entryAt? (fs.locate p ++ names) = some (.file b))
    (hshort : (p.down names).text.utf8ByteSize < pathLimit) : fs.isFile (p.down names) = true := by
  have hthere : fs.entryAt? (fs.locate p ++ names) ≠ none := by rw [hfile]; simp
  obtain ⟨hleads, hplace⟩ := leads_down hfs h hthere hshort
  refine (isFile_iff hfs).2 ⟨hleads, ?_, b, by rw [hplace, hfile]⟩
  -- the path ends in a name, because the directory itself is no file
  rcases List.eq_nil_or_concat names with rfl | ⟨above, name, rfl⟩
  · rw [List.append_nil, ((isDir_iff hfs).1 h).2] at hfile
    cases hfile
  · rw [List.concat_eq_append] at hthere ⊢
    have hsegment : ∀ n ∈ above ++ [name], IsSegment n := fun n hn =>
      (hfs.isName_of_below hthere n hn).toIsSegment
    have hname : IsSegment name := hsegment name (by simp)
    rw [p.down_concat (fun n hn => hsegment n (by simp [hn])) hname]
    exact HostPath.endsWithSlash_child _ hname

theorem no_nul_ofParts {ps : List String} (hps : ps <+: p.parts) (h : '\x00' ∉ p.text.toList) :
    '\x00' ∉ (HostPath.ofParts ps).text.toList := by
  intro hnul
  obtain ⟨names, hnames, hmem⟩ : ∃ names, names ⊆ ps
      ∧ '\x00' ∈ ("/".intercalate names).toList := by
    unfold HostPath.ofParts at hnul
    split at hnul
    · next rest =>
        rw [String.toList_append, List.mem_append] at hnul
        exact ⟨rest, List.subset_cons_self _ _, hnul.resolve_left (by decide)⟩
    · exact ⟨ps, List.Subset.refl ps, hnul⟩
  -- what is not a slash stands in one of the names
  obtain ⟨part, hpart, hin⟩ := (Text.mem_intercalate hmem).resolve_left (by decide)
  rcases HostPath.mem_parts (hps.subset (hnames hpart)) with rfl | hstep
  · exact absurd hin (by decide)
  · exact h (HostPath.mem_of_mem_steps hstep _ hin)

/-- **A beginning of the parts of a usable path is usable.** -/
theorem Usable.beginning (h : Usable p) {ps : List String} (hps : ps <+: p.parts) (hne : ps ≠ []) :
    Usable (.ofParts ps) := by
  refine ⟨no_nul_ofParts hps h.no_nul, fun hempty => ?_,
    Nat.lt_of_le_of_lt (HostPath.size_ofParts_le hps) h.short⟩
  have hparts := HostPath.parts_ofParts hps
  rw [HostPath.parts_eq_nil_iff.2 hempty] at hparts
  exact hne hparts.symm

/-- **The parts of an open path make an open path.** -/
theorem Leads.ofParts (h : fs.Leads p) (hne : p.parts ≠ []) : fs.Leads (.ofParts p.parts) := by
  have horigin := fs.origin_ofParts (List.prefix_refl p.parts) hne
  refine ⟨h.usable.beginning List.prefix_rfl hne, ?_, ?_⟩
  · rw [horigin]
    exact h.origin_dir
  · rw [horigin]
    rcases p.parts_cases with ⟨hrooted, ns, hparts, hsub, -⟩ | ⟨hrooted, hsub, -⟩
    · have hsegments : ∀ n ∈ ns, IsSegment n := fun n hn =>
        HostPath.isSegment_of_mem_steps (hsub.subset hn)
      have hns : ns = p.steps.filter (· != ".") := by
        rw [HostPath.parts_of_rooted hrooted, List.cons.injEq] at hparts
        exact hparts.2.symm
      rw [hparts, HostPath.steps_ofParts_slash hsegments, hns]
      exact h.walkable.filter
    · have hsegments : ∀ n ∈ p.parts, IsSegment n := fun n hn =>
        HostPath.isSegment_of_mem_steps (hsub.subset hn)
      rw [HostPath.ofParts_of_segments hsegments, HostPath.steps_ofNames hsegments]
      exact h.walkable.parts hrooted

end FileSystem

end PackageScript
