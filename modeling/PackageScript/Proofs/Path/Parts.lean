import PackageScript.Proofs.Path.Names

set_option autoImplicit false

/-! # Paths put together from names

A path can be put together from names with a slash between them, and from parts. Both are read
back from the path (`HostPath.steps_ofNames`, `HostPath.parts_ofParts`), so that the parent of a
path leads to one part less. Putting together never makes a text longer than the path that the
names were taken from (`HostPath.size_ofParts_le`).
-/

namespace PackageScript

namespace Text

/-! ## Names with slashes between them -/

theorem names_intercalate {ns : List String} (h : ∀ n ∈ ns, IsSegment n) :
    names ("/".intercalate ns).toList = ns := by
  induction ns with
  | nil => rfl
  | cons n rest ih =>
      have hn : IsSegment n := h n List.mem_cons_self
      have hsingle : names n.toList = [n] := by
        rw [names_eq_singleton hn.toList_ne_nil hn.no_slash, String.ofList_toList]
      cases rest with
      | nil => rw [String.intercalate_singleton, hsingle]
      | cons m more =>
          have hsplit : ("/".intercalate (n :: m :: more)).toList
              = n.toList ++ '/' :: ("/".intercalate (m :: more)).toList := by
            rw [String.intercalate_cons_cons, String.toList_append, String.toList_append,
              List.append_assoc]
            rfl
          rw [hsplit, names_slash, hsingle, ih fun k hk => h k (List.mem_cons_of_mem _ hk)]
          rfl

theorem intercalate_concat (ns : List String) (n m : String) :
    "/".intercalate (n :: ns ++ [m]) = "/".intercalate (n :: ns) ++ "/" ++ m := by
  induction ns generalizing n with
  | nil => rw [List.cons_append, List.nil_append, String.intercalate_cons_cons,
      String.intercalate_singleton, String.intercalate_singleton]
  | cons k ns ih =>
      rw [List.cons_append, List.cons_append, String.intercalate_cons_cons, ← List.cons_append, ih,
        String.intercalate_cons_cons]
      simp only [String.append_assoc]

theorem mem_intercalate {ns : List String} {c : Char} (h : c ∈ ("/".intercalate ns).toList) :
    c = '/' ∨ ∃ n ∈ ns, c ∈ n.toList := by
  induction ns with
  | nil => cases h
  | cons n rest ih =>
      cases rest with
      | nil =>
          rw [String.intercalate_singleton] at h
          exact Or.inr ⟨n, List.mem_cons_self, h⟩
      | cons m more =>
          rw [String.intercalate_cons_cons, String.toList_append, String.toList_append,
            List.mem_append, List.mem_append] at h
          rcases h with (h | h) | h
          · exact Or.inr ⟨n, List.mem_cons_self, h⟩
          · exact Or.inl (List.mem_singleton.1 h)
          · exact (ih h).imp id fun ⟨k, hk, hc⟩ => ⟨k, List.mem_cons_of_mem _ hk, hc⟩

/-! ## How long they are -/

/-- The bytes that names take, each with a slash behind it. -/
def width : List String → Nat
  | [] => 0
  | n :: ns => n.utf8ByteSize + 1 + width ns

theorem width_cons (n : String) (ns : List String) :
    width (n :: ns) = n.utf8ByteSize + 1 + width ns := rfl

theorem width_mono {ns ms : List String} (h : ns.Sublist ms) : width ns ≤ width ms := by
  induction h with
  | slnil => exact Nat.le_refl _
  | cons m _ ih =>
      rw [width_cons]
      omega
  | cons_cons m _ ih =>
      rw [width_cons, width_cons]
      omega

/-- The last name has no slash behind it. -/
theorem size_intercalate {ns : List String} (h : ns ≠ []) :
    ("/".intercalate ns).utf8ByteSize + 1 = width ns := by
  induction ns with
  | nil => exact absurd rfl h
  | cons n rest ih =>
      cases rest with
      | nil => rw [String.intercalate_singleton, width_cons]; rfl
      | cons m more =>
          have ih := ih (List.cons_ne_nil m more)
          have hslash : ("/" : String).utf8ByteSize = 1 := rfl
          rw [String.intercalate_cons_cons, width_cons, String.utf8ByteSize_append,
            String.utf8ByteSize_append, hslash]
          omega

/-- The pieces of a text are as long as the text, the slashes between them counted. -/
theorem width_pieces (s : List Char) :
    width ((pieces (· == '/') s).map String.ofList) = (String.ofList s).utf8ByteSize + 1 := by
  induction s with
  | nil => rfl
  | cons c cs ih =>
      rw [String.ofList_cons, String.utf8ByteSize_append, String.utf8ByteSize_singleton]
      by_cases hc : c = '/'
      · rw [pieces, if_pos (by simp [hc]), List.map_cons, width_cons, ih, hc]
        have hempty : (String.ofList []).utf8ByteSize = 0 := rfl
        have hslash : '/'.utf8Size = 1 := rfl
        omega
      · obtain ⟨w, ws, hw⟩ := List.exists_cons_of_ne_nil (pieces_ne_nil (· == '/') cs)
        rw [hw, List.map_cons, width_cons] at ih
        rw [pieces, if_neg (by simp [hc]), hw, List.modifyHead_cons, List.map_cons, width_cons,
          String.ofList_cons, String.utf8ByteSize_append, String.utf8ByteSize_singleton]
        omega

theorem width_names_le (s : List Char) :
    width (names s) ≤ (String.ofList s).utf8ByteSize + 1 := by
  rw [← width_pieces]
  exact width_mono (List.filter_sublist.map String.ofList)

end Text

namespace HostPath

/-! ## Names below a path -/

theorem steps_ofNames {ns : List String} (h : ∀ n ∈ ns, IsSegment n) :
    HostPath.steps ⟨"/".intercalate ns⟩ = ns := by
  rw [steps_eq, Text.names_intercalate h]

theorem isRooted_ofNames {ns : List String} (h : ∀ n ∈ ns, IsSegment n) :
    HostPath.isRooted ⟨"/".intercalate ns⟩ = false := by
  cases ns with
  | nil => rfl
  | cons n rest =>
      have hn : IsSegment n := h n List.mem_cons_self
      obtain ⟨c, cs, hcs⟩ := List.exists_cons_of_ne_nil hn.toList_ne_nil
      have hc : c ≠ '/' := by
        rintro rfl
        exact hn.no_slash (by rw [hcs]; exact List.mem_cons_self)
      have hhead : ("/".intercalate (n :: rest)).toList.head? = some c := by
        cases rest with
        | nil => rw [String.intercalate_singleton, hcs, List.head?_cons]
        | cons m more =>
            rw [String.intercalate_cons_cons, String.toList_append, String.toList_append, hcs]
            rfl
      rw [Bool.eq_false_iff]
      intro hr
      rw [isRooted_iff, hhead, Option.some.injEq] at hr
      exact hc hr

/-- The path that some names lead to from a path. -/
def down (p : HostPath) (ns : List String) : HostPath := p.join ⟨"/".intercalate ns⟩

theorem steps_down (p : HostPath) {ns : List String} (h : ∀ n ∈ ns, IsSegment n) :
    (p.down ns).steps = p.steps ++ ns := by
  rw [down, steps_join (isRooted_ofNames h), steps_ofNames h]

theorem isRooted_down (p : HostPath) {ns : List String} (h : ∀ n ∈ ns, IsSegment n) :
    (p.down ns).isRooted = p.isRooted := by
  rw [down, isRooted_join (isRooted_ofNames h)]

theorem endsWithSlash_of_name (front : String) {name : String} (h : IsSegment name) :
    HostPath.endsWithSlash ⟨front ++ name⟩ = false := by
  rw [Bool.eq_false_iff]
  intro hend
  obtain ⟨last, hlast⟩ := Option.isSome_iff_exists.1
    (List.getLast?_isSome.2 h.toList_ne_nil)
  rw [endsWithSlash, Text.endsWith, beq_iff_eq, String.toList_append, List.getLast?_append, hlast,
    Option.some_or, Option.some.injEq] at hend
  exact h.no_slash (hend ▸ List.mem_of_getLast? hlast)

theorem endsWithSlash_child (p : HostPath) {name : String} (h : IsSegment name) :
    (p.child name).endsWithSlash = false := by
  obtain ⟨between, htext⟩ := p.text_child h
  have hpath : p.child name = ⟨p.text ++ between ++ name⟩ := by rw [← htext]
  rw [hpath]
  exact endsWithSlash_of_name _ h

/-- What stands between a path and one that is joined to it. -/
def gap (p : HostPath) : String := if p.text.isEmpty || p.endsWithSlash then "" else "/"

theorem join_eq (p : HostPath) {q : HostPath} (h : q.isRooted = false) :
    p.join q = ⟨p.text ++ p.gap ++ q.text⟩ := by
  rw [join, if_neg (by simp [h]), gap]
  split
  · rw [String.append_empty]
  · rfl

theorem gap_eq_empty {p : HostPath} (h : p.text = "" ∨ p.endsWithSlash = true) : p.gap = "" := by
  rw [gap, if_pos (by simpa using h)]

/-- No gap is left behind a path and its gap. -/
theorem gap_gap (p : HostPath) : HostPath.gap ⟨p.text ++ p.gap⟩ = "" := by
  by_cases hclosed : p.text = "" ∨ p.endsWithSlash = true
  · rw [gap_eq_empty hclosed, String.append_empty]
    exact gap_eq_empty hclosed
  · refine gap_eq_empty (Or.inr (endsWithSlash_iff.2 ⟨p.text.toList, ?_⟩))
    rw [gap, if_neg (by simpa using hclosed), String.toList_append]
    rfl

/-- **The names below a path are walked one after the other.** -/
theorem down_concat (p : HostPath) {ns : List String} {name : String}
    (h : ∀ n ∈ ns, IsSegment n) (hname : IsSegment name) :
    p.down (ns ++ [name]) = (p.down ns).child name := by
  have hall : ∀ n ∈ ns ++ [name], IsSegment n := fun n hn =>
    (List.mem_append.1 hn).elim (h n) fun hn => List.mem_singleton.1 hn ▸ hname
  rw [down, join_eq p (isRooted_ofNames hall), child, join_eq _ (isRooted_ofSegment hname), down,
    join_eq p (isRooted_ofNames h)]
  rcases List.eq_nil_or_concat ns with rfl | ⟨init, last, rfl⟩
  · -- without names in front the gap is left once, behind the path itself
    rw [String.intercalate_nil, String.append_empty, gap_gap, String.append_empty, List.nil_append,
      String.intercalate_singleton]
  · rw [List.concat_eq_append] at h ⊢
    have hlast : IsSegment last := h last (by simp)
    have hgap : ∀ front, HostPath.gap ⟨front ++ last⟩ = "/" := by
      intro front
      rw [gap, endsWithSlash_of_name front hlast, Bool.or_false, if_neg]
      rw [String.isEmpty_iff, ← String.toList_eq_nil_iff, String.toList_append,
        List.append_eq_nil_iff]
      exact fun he => hlast.toList_ne_nil he.2
    obtain ⟨front, hfront⟩ : ∃ front, "/".intercalate (init ++ [last]) = front ++ last := by
      cases init with
      | nil => exact ⟨"", by rw [List.nil_append, String.intercalate_singleton,
          String.empty_append]⟩
      | cons n rest => exact ⟨_, Text.intercalate_concat rest n last⟩
    have hwhole : "/".intercalate (init ++ [last] ++ [name])
        = "/".intercalate (init ++ [last]) ++ "/" ++ name := by
      cases init with
      | nil => exact Text.intercalate_concat [] last name
      | cons n rest => exact Text.intercalate_concat (rest ++ [last]) n name
    have hgap' : HostPath.gap ⟨p.text ++ p.gap ++ "/".intercalate (init ++ [last])⟩ = "/" := by
      rw [hfront, ← String.append_assoc]
      exact hgap _
    rw [hgap', hwhole]
    simp only [String.append_assoc]

/-! ## Parts -/

/-- The parts of a path are a slash in front of its names, if it is rooted, and else its names. A
dot is no part but in front of a path that is not rooted. -/
theorem parts_cases (p : HostPath) :
    (p.isRooted = true ∧ ∃ ns, p.parts = "/" :: ns ∧ ns.Sublist p.steps ∧ "." ∉ ns)
      ∨ (p.isRooted = false ∧ p.parts.Sublist p.steps ∧ "." ∉ p.parts.tail) := by
  rw [parts]
  by_cases hr : p.isRooted = true
  · rw [if_pos hr]
    exact Or.inl ⟨hr, _, rfl, List.filter_sublist, by simp⟩
  · rw [if_neg hr]
    refine Or.inr ⟨Bool.eq_false_iff.2 hr, ?_⟩
    cases p.steps with
    | nil => exact ⟨List.Sublist.slnil, by simp⟩
    | cons first rest =>
        dsimp only
        split
        · next hdot => exact ⟨hdot ▸ List.filter_sublist.cons_cons _, by simp⟩
        · exact ⟨List.filter_sublist.cons_cons _, by simp⟩

theorem parts_of_rooted {p : HostPath} (h : p.isRooted = true) :
    p.parts = "/" :: p.steps.filter (· != ".") := by
  rw [parts, if_pos h]

/-- Names with no dot behind the first of them are the parts of a path that is not rooted. -/
theorem parts_of_names {p : HostPath} (h : p.isRooted = false) (hdot : "." ∉ p.steps.tail) :
    p.parts = p.steps := by
  have hfilter : p.steps.tail.filter (· != ".") = p.steps.tail := by
    rw [List.filter_eq_self]
    intro n hn
    simpa using fun he : n = "." => hdot (he ▸ hn)
  rw [parts, if_neg (by simp [h])]
  cases hs : p.steps with
  | nil => rfl
  | cons first rest =>
      rw [hs, List.tail_cons] at hfilter
      dsimp only
      rw [hfilter]
      split
      · next hfirst => rw [hfirst]
      · rfl

/-- In front of a path that is not rooted a dot is a part, behind that it is none. -/
theorem parts_of_relative {p : HostPath} (h : p.isRooted = false) {first : String}
    {rest : List String} (hsteps : p.steps = first :: rest) :
    p.parts = first :: rest.filter (· != ".") := by
  rw [parts, if_neg (by simp [h]), hsteps]
  dsimp only
  split
  · next hfirst => rw [hfirst]
  · rfl

/-- Without dots, the parts of a path are its names, with a slash in front if it is rooted. -/
theorem filter_parts (p : HostPath) :
    p.parts.filter (· != ".")
      = (if p.isRooted then ["/"] else []) ++ p.steps.filter (· != ".") := by
  by_cases hr : p.isRooted = true
  · rw [parts_of_rooted hr, if_pos hr, List.filter_cons_of_pos (by decide), List.filter_filter]
    simp
  · rw [if_neg hr, List.nil_append]
    rw [Bool.not_eq_true] at hr
    cases hsteps : p.steps with
    | nil => rw [parts, if_neg (by simp [hr]), hsteps]
    | cons first rest =>
        rw [parts_of_relative hr hsteps, List.filter_cons, List.filter_cons, List.filter_filter]
        simp

theorem toList_ofParts_slash (ns : List String) :
    (ofParts ("/" :: ns)).text.toList = '/' :: ("/".intercalate ns).toList := by
  rw [ofParts, String.toList_append]
  rfl

theorem isRooted_ofParts_slash (ns : List String) : (ofParts ("/" :: ns)).isRooted = true := by
  rw [isRooted_iff, toList_ofParts_slash, List.head?_cons]

theorem steps_ofParts_slash {ns : List String} (h : ∀ n ∈ ns, IsSegment n) :
    (ofParts ("/" :: ns)).steps = ns := by
  rw [steps_eq, toList_ofParts_slash, Text.names_slash_cons, Text.names_intercalate h]

theorem ofParts_of_segments {ps : List String} (h : ∀ n ∈ ps, IsSegment n) :
    ofParts ps = ⟨"/".intercalate ps⟩ := by
  unfold ofParts
  split
  · exact absurd (h "/" List.mem_cons_self).no_slash (by decide)
  · rfl

/-- **Parts are read back from the path that they make**, if a path has them in front of its
own. -/
theorem parts_ofParts {p : HostPath} {ps : List String} (h : ps <+: p.parts) :
    (ofParts ps).parts = ps := by
  rcases p.parts_cases with ⟨-, ns, hparts, hsub, hdot⟩ | ⟨-, hsub, hdot⟩
  · cases ps with
    | nil => rfl
    | cons first ms =>
        rw [hparts] at h
        obtain ⟨rfl, hms⟩ := List.cons_prefix_cons.1 h
        have hsegments : ∀ n ∈ ms, IsSegment n := fun n hn =>
          isSegment_of_mem_steps ((hms.sublist.trans hsub).subset hn)
        rw [parts_of_rooted (isRooted_ofParts_slash ms), steps_ofParts_slash hsegments,
          List.filter_eq_self.2]
        intro n hn
        simpa using fun he : n = "." => hdot (he ▸ hms.subset hn)
  · have hsegments : ∀ n ∈ ps, IsSegment n := fun n hn =>
      isSegment_of_mem_steps ((h.sublist.trans hsub).subset hn)
    have hsteps := steps_ofNames hsegments
    have htail : "." ∉ ps.tail := by
      obtain ⟨more, hmore⟩ := h
      cases ps with
      | nil => simp
      | cons first ms =>
          rw [← hmore] at hdot
          exact fun hmem => hdot (List.mem_append_left more hmem)
    rw [ofParts_of_segments hsegments, parts_of_names (isRooted_ofNames hsegments) (by
      rw [hsteps]
      exact htail), hsteps]

theorem parts_eq_nil_iff {p : HostPath} : p.parts = [] ↔ p.text = "" := by
  constructor
  · intro h
    have hrooted : p.isRooted = false := by
      rw [Bool.eq_false_iff]
      intro hr
      rw [parts_of_rooted hr] at h
      cases h
    have hsteps : p.steps = [] := by
      rw [parts, if_neg (by simp [hrooted])] at h
      cases hs : p.steps with
      | nil => rfl
      | cons first rest =>
          rw [hs] at h
          dsimp only at h
          split at h <;> cases h
    -- a character that is no slash would be part of a name
    rw [← String.toList_eq_nil_iff]
    cases htext : p.text.toList with
    | nil => rfl
    | cons c cs =>
        by_cases hc : c = '/'
        · rw [isRooted, htext, hc] at hrooted
          cases hrooted
        · obtain ⟨n, hn, -⟩ := Text.exists_name_of_mem (s := p.text.toList)
            (by rw [htext]; exact List.mem_cons_self) hc
          rw [← steps_eq, hsteps] at hn
          cases hn
  · intro h
    have hpath : p = ⟨""⟩ := by
      cases p
      cases h
      rfl
    rw [hpath]
    rfl

theorem mem_parts {p : HostPath} {part : String} (h : part ∈ p.parts) :
    part = "/" ∨ part ∈ p.steps := by
  rcases p.parts_cases with ⟨-, ns, hparts, hsub, -⟩ | ⟨-, hsub, -⟩
  · rw [hparts] at h
    exact (List.mem_cons.1 h).imp id fun hn => hsub.subset hn
  · exact Or.inr (hsub.subset h)

theorem dots_not_mem_parts {p : HostPath} (h : ".." ∉ p.steps) : ".." ∉ p.parts := by
  intro hmem
  rcases mem_parts hmem with hslash | hstep
  · exact absurd hslash (by decide)
  · exact h hstep

theorem isSegment_of_parts_eq {p : HostPath} {ps : List String} {part : String}
    (h : p.parts = ps ++ [part]) (hps : ps ≠ []) : IsSegment part := by
  rcases p.parts_cases with ⟨-, ns, hparts, hsub, -⟩ | ⟨-, hsub, -⟩
  · obtain ⟨first, ms, rfl⟩ := List.exists_cons_of_ne_nil hps
    rw [hparts, List.cons_append, List.cons.injEq] at h
    exact isSegment_of_mem_steps (hsub.subset (by rw [h.2]; simp))
  · exact isSegment_of_mem_steps (hsub.subset (by rw [h]; simp))

theorem isRooted_iff_head?_parts {p : HostPath} :
    p.isRooted = true ↔ p.parts.head? = some "/" := by
  rcases p.parts_cases with ⟨hrooted, ns, hparts, -, -⟩ | ⟨hrooted, hsub, -⟩
  · rw [hrooted, hparts]
    exact ⟨fun _ => rfl, fun _ => rfl⟩
  · rw [hrooted]
    refine ⟨fun h => (by cases h), fun h => ?_⟩
    have hslash := isSegment_of_mem_steps (hsub.subset (List.mem_of_head? h))
    exact absurd hslash.no_slash (by decide)

theorem size_child (p : HostPath) {name : String} (h : IsSegment name) :
    p.text.utf8ByteSize < (p.child name).text.utf8ByteSize := by
  obtain ⟨between, htext⟩ := p.text_child h
  have hname : 0 < name.utf8ByteSize := by
    rw [Nat.pos_iff_ne_zero, ne_eq, String.utf8ByteSize_eq_zero_iff]
    exact h.ne_empty
  rw [htext, String.utf8ByteSize_append, String.utf8ByteSize_append]
  omega

theorem size_child_le (p : HostPath) {name : String} (h : IsSegment name) :
    (p.child name).text.utf8ByteSize ≤ p.text.utf8ByteSize + 1 + name.utf8ByteSize := by
  have hgap : p.gap.utf8ByteSize ≤ 1 := by
    rw [gap]
    split <;> decide
  rw [child, p.join_eq (isRooted_ofSegment h)]
  dsimp only
  rw [String.utf8ByteSize_append, String.utf8ByteSize_append]
  omega

/-- The names of a rooted path take no more bytes than the path. -/
theorem width_steps_le {p : HostPath} (h : p.isRooted = true) :
    Text.width p.steps ≤ p.text.utf8ByteSize := by
  obtain ⟨t, ht⟩ := List.head?_eq_some_iff.1 (isRooted_iff.1 h)
  have hsize : p.text.utf8ByteSize = 1 + (String.ofList t).utf8ByteSize := by
    rw [← String.ofList_toList (s := p.text), ht, String.ofList_cons, String.utf8ByteSize_append,
      String.utf8ByteSize_singleton]
    rfl
  have hnames := Text.width_names_le t
  rw [steps_eq, ht, Text.names_slash_cons, hsize]
  omega

/-- **Parts make no longer text than the path that has them in front.** -/
theorem size_ofParts_le {p : HostPath} {ps : List String} (h : ps <+: p.parts) :
    (ofParts ps).text.utf8ByteSize ≤ p.text.utf8ByteSize := by
  rcases p.parts_cases with ⟨hrooted, ns, hparts, hsub, -⟩ | ⟨-, hsub, -⟩
  · cases ps with
    | nil => exact Nat.zero_le _
    | cons first ms =>
        rw [hparts] at h
        obtain ⟨rfl, hms⟩ := List.cons_prefix_cons.1 h
        have hslash : ("/" : String).utf8ByteSize = 1 := rfl
        rw [ofParts, String.utf8ByteSize_append, hslash]
        rcases List.eq_nil_or_concat ms with rfl | ⟨init, last, rfl⟩
        · exact Nat.one_le_iff_ne_zero.2 fun hzero => by
            rw [String.utf8ByteSize_eq_zero_iff] at hzero
            rw [isRooted, hzero] at hrooted
            cases hrooted
        · have hwidth := Text.width_mono (hms.sublist.trans hsub)
          have hne : init.concat last ≠ [] := by simp
          have hinter := Text.size_intercalate hne
          have hsteps := width_steps_le hrooted
          omega
  · cases ps with
    | nil => exact Nat.zero_le _
    | cons first ms =>
        have hsegments : ∀ n ∈ first :: ms, IsSegment n := fun n hn =>
          isSegment_of_mem_steps ((h.sublist.trans hsub).subset hn)
        have hwidth := Text.width_mono (h.sublist.trans hsub)
        have hinter := Text.size_intercalate (List.cons_ne_nil first ms)
        have hnames := Text.width_names_le p.text.toList
        rw [← steps_eq, String.ofList_toList] at hnames
        rw [ofParts_of_segments hsegments]
        dsimp only
        omega

/-- **A beginning of the parts has the names of a beginning of the path**, some dots aside. -/
theorem steps_ofParts_beginning {p : HostPath} {ps more : List String}
    (h : p.parts = ps ++ more) (hps : ps ≠ []) (hmore : more ≠ []) :
    ∃ front between behind, p.steps = front ++ between ++ behind ∧ behind ≠ []
      ∧ (ofParts ps).steps = front ++ between.filter (· != ".") := by
  -- the names behind the beginning are not just dots, because parts are left there
  have hne : ∀ behind : List String, behind.filter (· != ".") = more → behind ≠ [] := by
    rintro behind hbehind rfl
    exact hmore hbehind.symm
  have hsegments : ∀ ns : List String, ns.Sublist p.steps → ∀ n ∈ ns, IsSegment n :=
    fun ns hsub n hn => isSegment_of_mem_steps (hsub.subset hn)
  obtain ⟨first, ns, rfl⟩ := List.exists_cons_of_ne_nil hps
  rw [List.cons_append] at h
  by_cases hr : p.isRooted = true
  · rw [parts_of_rooted hr, List.cons.injEq] at h
    obtain ⟨rfl, hnames⟩ := h
    obtain ⟨between, behind, hsteps, rfl, hbehind⟩ := List.filter_eq_append_iff.1 hnames
    refine ⟨[], between, behind, hsteps, hne behind hbehind, ?_⟩
    refine steps_ofParts_slash (hsegments _ ?_)
    rw [hsteps]
    exact List.filter_sublist.trans (List.sublist_append_left between behind)
  · rw [Bool.not_eq_true] at hr
    cases hall : p.steps with
    | nil =>
        rw [parts, if_neg (by simp [hr]), hall] at h
        cases h
    | cons head rest =>
        rw [parts_of_relative hr hall, List.cons.injEq] at h
        obtain ⟨rfl, hnames⟩ := h
        obtain ⟨between, behind, rfl, rfl, hbehind⟩ := List.filter_eq_append_iff.1 hnames
        refine ⟨[head], between, behind, rfl, hne behind hbehind, ?_⟩
        have hsub : (head :: between.filter (· != ".")).Sublist p.steps := by
          rw [hall]
          exact (List.filter_sublist.trans (List.sublist_append_left between behind)).cons_cons head
        rw [ofParts_of_segments (hsegments _ hsub), steps_ofNames (hsegments _ hsub)]
        rfl

/-! ## The parent of a path -/

theorem parts_child (p : HostPath) {name : String} (h : IsPart name) :
    (p.child name).parts = p.parts ++ [name] := by
  have hkeep : [name].filter (· != ".") = [name] := by simp [h.ne_dot]
  rw [parts, parts, isRooted_child p h.toIsSegment, steps_child p h.toIsSegment]
  split
  · rw [List.filter_append, hkeep, List.cons_append]
  · cases p.steps with
    | nil =>
        rw [List.nil_append]
        dsimp only
        rw [if_neg h.ne_dot]
        rfl
    | cons first rest =>
        rw [List.cons_append]
        dsimp only
        rw [List.filter_append, hkeep]
        split <;> rfl

theorem parent?_child (p : HostPath) {name : String} (h : IsPart name) :
    (p.child name).parent? = some (ofParts p.parts) := by
  have hparts := p.parts_child h
  unfold parent?
  split
  · next hnil =>
      rw [hparts] at hnil
      cases List.append_eq_nil_iff.1 hnil |>.2
  · next hslash =>
      rw [hparts, List.append_eq_singleton_iff] at hslash
      rcases hslash with ⟨-, hname⟩ | ⟨-, hname⟩
      · exact absurd (List.singleton_inj.1 hname ▸ h.no_slash) (by decide)
      · cases hname
  · next ps _ _ =>
      rw [hparts, List.dropLast_concat]

end HostPath

end PackageScript
