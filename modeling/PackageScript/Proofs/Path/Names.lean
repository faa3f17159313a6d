import PackageScript.Path.HostPath
import PackageScript.Proofs.Text.Pieces

set_option autoImplicit false

/-! # The names in a path

A host path is a text, and everything that the file system or a comparison sees of it are the
names between its slashes (`HostPath.steps`), whether it is rooted, and whether it ends in a
slash. This file says how joining paths and putting parts together act on these three.
-/

namespace PackageScript

namespace Text

/-- The names between the slashes of a text. -/
def names (s : List Char) : List String :=
  ((pieces (· == '/') s).filter fun w => !w.isEmpty).map String.ofList

@[simp] theorem names_nil : names [] = [] := rfl

theorem names_slash (a b : List Char) : names (a ++ '/' :: b) = names a ++ names b := by
  rw [names, pieces_append_sep, List.filter_append, List.map_append]
  rfl

theorem names_append_slash (a : List Char) : names (a ++ ['/']) = names a := by
  rw [names_slash, names_nil, List.append_nil]

theorem names_slash_cons (b : List Char) : names ('/' :: b) = names b :=
  names_slash [] b

theorem names_eq_singleton {s : List Char} (hne : s ≠ []) (h : '/' ∉ s) :
    names s = [String.ofList s] := by
  have hs : s.isEmpty = false := by
    rw [List.isEmpty_eq_false_iff]
    exact hne
  rw [names, pieces_of_not_mem h]
  simp [hs]

theorem names_dropWhile_slash (s : List Char) : names (s.dropWhile (· == '/')) = names s := by
  induction s with
  | nil => rfl
  | cons c cs ih =>
      by_cases hc : c = '/'
      · rw [hc, List.dropWhile_cons_of_pos (by simp), ih, names_slash_cons]
      · rw [List.dropWhile_cons_of_neg (by simp [hc])]

theorem exists_name_of_mem {s : List Char} {c : Char} (hc : c ∈ s) (hslash : c ≠ '/') :
    ∃ name ∈ names s, c ∈ name.toList := by
  have hsep : (c == '/') = false := by
    rw [beq_eq_false_iff_ne]
    exact hslash
  obtain ⟨w, hw, hcw⟩ := exists_piece_of_mem (· == '/') hc hsep
  refine ⟨String.ofList w, List.mem_map_of_mem (List.mem_filter.2 ⟨hw, ?_⟩), by
    rw [String.toList_ofList]
    exact hcw⟩
  cases w with
  | nil => cases hcw
  | cons x xs => rfl

theorem mem_names {s : List Char} {name : String} (h : name ∈ names s) :
    name ≠ "" ∧ '/' ∉ name.toList ∧ ∀ c ∈ name.toList, c ∈ s := by
  obtain ⟨w, hw, rfl⟩ := List.mem_map.1 h
  obtain ⟨hw, hne⟩ := List.mem_filter.1 hw
  rw [String.toList_ofList]
  refine ⟨fun he => ?_, not_mem_of_mem_pieces hw, mem_of_mem_pieces hw⟩
  rw [← String.toList_eq_nil_iff, String.toList_ofList] at he
  rw [he] at hne
  cases hne

theorem infix_of_mem_names {s : List Char} {name : String} (h : name ∈ names s) :
    name.toList <:+: s := by
  obtain ⟨w, hw, rfl⟩ := List.mem_map.1 h
  rw [String.toList_ofList]
  exact infix_of_mem_pieces (List.mem_filter.1 hw).1

/-- A text that does not begin with a slash is its first name, or begins with it and a slash. -/
theorem eq_of_names_eq_cons {s : List Char} (hhead : s.head? ≠ some '/') {a : String}
    {more : List String} (h : names s = a :: more) :
    s = a.toList ∨ ∃ t, s = a.toList ++ '/' :: t := by
  by_cases hslash : '/' ∈ s
  · obtain ⟨w, t, rfl, hw⟩ := List.eq_append_cons_of_mem hslash
    have hne : w ≠ [] := by
      rintro rfl
      exact hhead rfl
    rw [names_slash, names_eq_singleton hne hw] at h
    obtain ⟨rfl, -⟩ := List.cons.inj h
    exact Or.inr ⟨t, by rw [String.toList_ofList]⟩
  · have hne : s ≠ [] := by
      rintro rfl
      cases h
    rw [names_eq_singleton hne hslash] at h
    obtain ⟨rfl, -⟩ := List.cons.inj h
    exact Or.inl String.toList_ofList.symm

theorem eq_of_names_eq_cons_cons {s : List Char} (hhead : s.head? ≠ some '/') {a b : String}
    {more : List String} (h : names s = a :: b :: more) : ∃ t, s = a.toList ++ '/' :: t := by
  refine (eq_of_names_eq_cons hhead h).resolve_left fun heq => ?_
  have hmem : a ∈ names s := h ▸ List.mem_cons_self
  obtain ⟨hne, hslash, -⟩ := mem_names hmem
  rw [heq, names_eq_singleton (mt String.toList_eq_nil_iff.1 hne) hslash] at h
  cases (List.cons.inj h).2

end Text

/-! ## Names as directories have them -/

/-- **What stands between two slashes of a path.** -/
structure IsSegment (s : String) : Prop where
  ne_empty : s ≠ ""
  no_slash : '/' ∉ s.toList

/-- **A segment that leads one name down**: it neither stays nor goes up. -/
structure IsPart (s : String) : Prop extends IsSegment s where
  ne_dot : s ≠ "."
  ne_dots : s ≠ ".."

/-- **The names that an entry of a directory can have.** -/
structure IsName (name : String) : Prop extends IsPart name where
  no_nul : '\x00' ∉ name.toList
  short : name.utf8ByteSize ≤ 255

theorem isSegment_of_mem_dots {k : Nat} {s : String} (h : s ∈ List.replicate k ".") :
    IsSegment s := by
  rw [List.eq_of_mem_replicate h]
  exact ⟨by decide, by decide⟩

theorem IsSegment.toList_ne_nil {s : String} (h : IsSegment s) : s.toList ≠ [] := fun he =>
  h.ne_empty (String.toList_eq_nil_iff.1 he)

instance (name : String) : Decidable (IsName name) :=
  decidable_of_iff
    ((name ≠ "" ∧ '/' ∉ name.toList) ∧ (name ≠ "." ∧ name ≠ "..")
      ∧ '\x00' ∉ name.toList ∧ name.utf8ByteSize ≤ 255)
    ⟨fun ⟨hs, hp, hnul, hshort⟩ => ⟨⟨⟨hs.1, hs.2⟩, hp.1, hp.2⟩, hnul, hshort⟩,
      fun h => ⟨⟨h.ne_empty, h.no_slash⟩, ⟨h.ne_dot, h.ne_dots⟩, h.no_nul, h.short⟩⟩

namespace HostPath

theorem steps_eq (p : HostPath) : p.steps = Text.names p.text.toList := by
  have hempty : ∀ w : List Char, (String.ofList w).isEmpty = w.isEmpty := by
    intro w
    rw [Bool.eq_iff_iff, String.isEmpty_iff, ← String.toList_eq_nil_iff, String.toList_ofList,
      List.isEmpty_iff]
  rw [steps, Text.splitAt, Text.splitAtAny, Text.names, List.filter_map]
  congr 1
  apply List.filter_congr
  intro w _
  rw [Function.comp, hempty]

theorem isSegment_of_mem_steps {p : HostPath} {name : String} (h : name ∈ p.steps) :
    IsSegment name := by
  rw [steps_eq] at h
  exact ⟨(Text.mem_names h).1, (Text.mem_names h).2.1⟩

theorem mem_of_mem_steps {p : HostPath} {name : String} (h : name ∈ p.steps) :
    ∀ c ∈ name.toList, c ∈ p.text.toList := by
  rw [steps_eq] at h
  exact (Text.mem_names h).2.2

theorem isRooted_iff {p : HostPath} : p.isRooted = true ↔ p.text.toList.head? = some '/' := by
  rw [isRooted, beq_iff_eq]

theorem endsWithSlash_iff {p : HostPath} :
    p.endsWithSlash = true ↔ ∃ s, p.text.toList = s ++ ['/'] := by
  rw [endsWithSlash, Text.endsWith, beq_iff_eq, List.getLast?_eq_some_iff]

/-! ## Joining -/

/-- Below a base stand the names of the base and then those of the path joined to it. -/
theorem steps_join {base relative : HostPath} (h : relative.isRooted = false) :
    (base.join relative).steps = base.steps ++ relative.steps := by
  rw [steps_eq, steps_eq base, steps_eq relative, join, if_neg (by simp [h])]
  split
  · next hb =>
      rw [Bool.or_eq_true, String.isEmpty_iff] at hb
      rw [String.toList_append]
      rcases hb with hb | hb
      · rw [hb]
        rfl
      · obtain ⟨s, hs⟩ := endsWithSlash_iff.1 hb
        rw [hs, List.append_assoc, List.singleton_append, Text.names_slash,
          Text.names_append_slash]
  · rw [String.toList_append, String.toList_append, List.append_assoc]
    exact Text.names_slash _ _

theorem isRooted_join {base relative : HostPath} (h : relative.isRooted = false) :
    (base.join relative).isRooted = base.isRooted := by
  rw [join, if_neg (by simp [h])]
  cases hb : base.text.toList with
  | nil =>
      have hempty : base.text = "" := String.toList_eq_nil_iff.1 hb
      have hroot : base.isRooted = false := by simp [isRooted, hb]
      rw [if_pos (by simp [hempty]), hroot, ← h, isRooted, isRooted, hempty]
      rfl
  | cons c cs =>
      split <;> simp [isRooted, hb, String.toList_append]

theorem isRooted_ofSegment {name : String} (h : IsSegment name) :
    HostPath.isRooted ⟨name⟩ = false := by
  rw [Bool.eq_false_iff]
  intro hr
  obtain ⟨cs, hcs⟩ := List.head?_eq_some_iff.1 (isRooted_iff.1 hr)
  exact h.no_slash (by rw [hcs]; exact List.mem_cons_self)

theorem steps_ofSegment {name : String} (h : IsSegment name) : HostPath.steps ⟨name⟩ = [name] := by
  rw [steps_eq, Text.names_eq_singleton h.toList_ne_nil h.no_slash, String.ofList_toList]

theorem steps_child (p : HostPath) {name : String} (h : IsSegment name) :
    (p.child name).steps = p.steps ++ [name] := by
  rw [child, steps_join (isRooted_ofSegment h), steps_ofSegment h]

theorem dots_not_mem_steps_child {p : HostPath} {name : String} (hp : ".." ∉ p.steps)
    (h : IsPart name) : ".." ∉ (p.child name).steps := by
  rw [steps_child p h.toIsSegment, List.mem_append, List.mem_singleton]
  exact fun hmem => hmem.elim hp fun heq => h.ne_dots heq.symm

theorem isRooted_child (p : HostPath) {name : String} (h : IsSegment name) :
    (p.child name).isRooted = p.isRooted := by
  rw [child, isRooted_join (isRooted_ofSegment h)]

theorem text_child (p : HostPath) {name : String} (h : IsSegment name) :
    ∃ between, (p.child name).text = p.text ++ between ++ name := by
  rw [child, join, if_neg (by simp [isRooted_ofSegment h])]
  split
  · exact ⟨"", by rw [String.append_empty]⟩
  · exact ⟨"/", rfl⟩

theorem text_child_ne_empty (p : HostPath) {name : String} (h : IsSegment name) :
    (p.child name).text ≠ "" := by
  obtain ⟨between, htext⟩ := p.text_child h
  intro he
  rw [htext, ← String.toList_eq_nil_iff, String.toList_append, List.append_eq_nil_iff] at he
  exact h.toList_ne_nil he.2

end HostPath

end PackageScript
