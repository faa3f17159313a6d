import PackageScript.Proofs.Guard.Protected

set_option autoImplicit false

/-! # What the guard refuses, without its segments

The guard looks at a path several times: whole, behind each protected root, behind its volume, and
there segment by segment. Two of its rules are about single segments, one below a protected root
and one behind the volume. They never decide anything (`Guard.SegmentTraverses.traverses`): what
they look for in a segment stands in the whole text as well, and there it is refused wherever it
stands. So four rules about the whole text say all that the guard says
(`Guard.isDangerous_iff_rules`).
-/

namespace PackageScript

namespace Text

theorem cutAt?_pair_eq_some_iff {a b : Char} (hab : a ≠ b) {s before after : List Char} :
    cutAt? [a, b] s = some (before, after)
      ↔ s = before ++ ([a, b] ++ after) ∧ ¬ [a, b] <:+: before := by
  constructor
  · intro h
    refine ⟨?_, not_infix_of_cutAt? (List.cons_ne_nil a [b]) h⟩
    rw [eq_of_cutAt? h, List.append_assoc]
  · rintro ⟨rfl, hbefore⟩
    exact cutAt?_pair hab hbefore after

theorem afterStart?_eq_some_iff {start s rest : String} :
    afterStart? start s = some rest ↔ s = start ++ rest := by
  rw [afterStart?, Option.map_eq_some_iff]
  constructor
  · rintro ⟨cs, hdrop, rfl⟩
    rw [← String.toList_inj, String.toList_append, String.toList_ofList]
    exact dropStart?_eq_some_iff.1 hdrop
  · rintro rfl
    refine ⟨rest.toList, ?_, String.ofList_toList⟩
    rw [String.toList_append, dropStart?_append]

theorem startsWith_iff {s start : String} :
    startsWith s start = true ↔ start.toList <+: s.toList := by
  rw [startsWith, Option.isSome_iff_exists]
  exact exists_congr fun rest => dropStart?_eq_some_iff.trans eq_comm

end Text

namespace Guard

/-! ## The rules -/

/-- A text with `..` or `~` anywhere. -/
def Traverses (text : String) : Prop :=
  "..".toList <:+: text.toList ∨ "~".toList <:+: text.toList

/-- A path cut at the first `:/`. -/
structure CutAtVolume (path volume rest : String) : Prop where
  eq : path = volume ++ ":/" ++ rest
  first : ¬ ":/".toList <:+: volume.toList

/-- A text that is a pattern: it has one of the characters that begin a wildcard. -/
def HasWildcard (text : String) : Prop :=
  '*' ∈ text.toList ∨ '?' ∈ text.toList ∨ '[' ∈ text.toList

/-- What the two rules about single segments refuse: below a protected root a segment with `..` or
`~` in it, behind the volume a segment that is `..` or `~`. -/
def SegmentTraverses (path : String) : Prop :=
  (∃ root ∈ protectedRoots, ∃ rest, path = root ++ rest ∧ ∃ s ∈ segments rest, Traverses s)
    ∨ ∃ volume rest, CutAtVolume path volume rest ∧ ∃ s ∈ segments rest, s = ".." ∨ s = "~"

/-! ## What each check looks for -/

variable {path : String}

theorem any_contains_iff {text : String} :
    traversals.any (Text.contains text) = true ↔ Traverses text := by
  rw [List.any_eq_true]
  constructor
  · rintro ⟨t, ht, hin⟩
    rcases List.mem_pair.1 ht with rfl | rfl
    · exact .inl (Text.occursIn_iff.1 hin)
    · exact .inr (Text.occursIn_iff.1 hin)
  · rintro (hin | hin)
    · exact ⟨"..", by decide, Text.occursIn_iff.2 hin⟩
    · exact ⟨"~", by decide, Text.occursIn_iff.2 hin⟩

theorem any_startsWith_iff :
    ultraProtectedRoots.any (Text.startsWith path) = true
      ↔ "sdmc:/Nintendo/".toList <+: path.toList ∨ "sdmc:/emuMMC/".toList <+: path.toList := by
  simp only [ultraProtectedRoots, List.any_cons, List.any_nil, Bool.or_false, Bool.or_eq_true,
    Text.startsWith_iff]

theorem any_segment_contains_iff {rest : String} :
    ((segments rest).any fun s => traversals.any (Text.contains s)) = true
      ↔ ∃ s ∈ segments rest, Traverses s := by
  rw [List.any_eq_true]
  simp only [any_contains_iff]

theorem any_segment_eq_iff {rest : String} :
    (segments rest).any traversals.contains = true ↔ ∃ s ∈ segments rest, s = ".." ∨ s = "~" := by
  rw [List.any_eq_true]
  simp only [traversals, List.contains_iff_mem, List.mem_pair]

theorem hitsRoot_iff {root : String} :
    hitsRoot path root = true
      ↔ (path = root ∨ path = root ++ "*" ∨ path = root ++ "*/")
        ∨ ∃ rest, path = root ++ rest ∧ ∃ s ∈ segments rest, Traverses s := by
  have hbehind : ∀ {rest : String}, path = root ++ rest →
      (hitsRoot path root = true
        ↔ path = root ∨ (rest = "*" ∨ rest = "*/") ∨ ∃ s ∈ segments rest, Traverses s) := by
    intro rest hpath
    rw [hitsRoot, Text.afterStart?_eq_some_iff.2 hpath]
    simp only [Bool.or_eq_true, beq_iff_eq, any_segment_contains_iff, bareWildcards,
      List.contains_iff_mem, List.mem_pair]
  constructor
  · intro hhits
    cases hafter : Text.afterStart? root path with
    | none =>
        rw [hitsRoot, hafter, Bool.or_false, beq_iff_eq] at hhits
        exact .inl (.inl hhits)
    | some rest =>
        have hpath := Text.afterStart?_eq_some_iff.1 hafter
        rcases (hbehind hpath).1 hhits with hroot | (hstar | hstar) | hsegment
        · exact .inl (.inl hroot)
        · exact .inl (.inr (.inl (by rw [hpath, hstar])))
        · exact .inl (.inr (.inr (by rw [hpath, hstar])))
        · exact .inr ⟨rest, hpath, hsegment⟩
  · rintro ((hroot | hstar | hstar) | ⟨rest, hpath, hsegment⟩)
    · rw [hitsRoot, hroot, beq_self_eq_true, Bool.true_or]
    · exact (hbehind hstar).2 (.inr (.inl (.inl rfl)))
    · exact (hbehind hstar).2 (.inr (.inl (.inr rfl)))
    · exact (hbehind hpath).2 (.inr (.inr hsegment))

theorem cutAtVolume_iff {volume rest : List Char} :
    Text.cutAt? [':', '/'] path.toList = some (volume, rest)
      ↔ CutAtVolume path (String.ofList volume) (String.ofList rest) := by
  rw [Text.cutAt?_pair_eq_some_iff (by decide)]
  constructor
  · rintro ⟨heq, hfirst⟩
    refine ⟨?_, by rw [String.toList_ofList (l := volume)]; exact hfirst⟩
    rw [← String.toList_inj, heq]
    simp [String.toList_append]
  · rintro ⟨heq, hfirst⟩
    rw [String.toList_ofList (l := volume)] at hfirst
    refine ⟨?_, hfirst⟩
    rw [heq]
    simp [String.toList_append]

theorem any_isWildcardChar_iff {text : List Char} :
    text.any isWildcardChar = true ↔ HasWildcard (String.ofList text) := by
  rw [HasWildcard, String.toList_ofList, List.any_eq_true]
  simp only [isWildcardChar, Bool.or_eq_true, beq_iff_eq, and_or_left, exists_or,
    exists_eq_right, or_assoc]

theorem hitsVolume_iff :
    hitsVolume path = true
      ↔ ∃ volume rest, CutAtVolume path volume rest
          ∧ ((∃ s ∈ segments rest, s = ".." ∨ s = "~") ∨ HasWildcard volume) := by
  have hcut : ∀ {volume rest : List Char},
      Text.cutAt? [':', '/'] path.toList = some (volume, rest) →
      (hitsVolume path = true
        ↔ (∃ s ∈ segments (String.ofList rest), s = ".." ∨ s = "~")
          ∨ HasWildcard (String.ofList volume)) := by
    intro volume rest h
    rw [hitsVolume, h]
    rw [Bool.or_eq_true, any_segment_eq_iff, any_isWildcardChar_iff]
  constructor
  · intro hhits
    cases h : Text.cutAt? [':', '/'] path.toList with
    | none =>
        rw [hitsVolume, h] at hhits
        cases hhits
    | some cut => exact ⟨_, _, cutAtVolume_iff.1 h, (hcut h).1 hhits⟩
  · rintro ⟨volume, rest, hvolume, hrule⟩
    rw [← String.ofList_toList (s := volume), ← String.ofList_toList (s := rest)] at hvolume hrule
    exact (hcut (cutAtVolume_iff.2 hvolume)).2 hrule

/-! ## Segments lie in the text -/

theorem Traverses.append {rest : String} (start : String) (h : Traverses rest) :
    Traverses (start ++ rest) := by
  have hin : rest.toList <:+: (start ++ rest).toList := by
    rw [String.toList_append]
    exact (List.suffix_append start.toList rest.toList).isInfix
  exact h.imp (fun hdots => hdots.trans hin) (fun htilde => htilde.trans hin)

/-- What stands in a segment stands in the path. -/
theorem Traverses.of_segment {s : String} (hs : s ∈ segments path) (h : Traverses s) :
    Traverses path := by
  have hin : s.toList <:+: path.toList := by
    rw [segments_eq_names] at hs
    exact Text.infix_of_mem_names hs
  exact h.imp (fun hdots => hdots.trans hin) (fun htilde => htilde.trans hin)

theorem traverses_of_eq {s : String} (h : s = ".." ∨ s = "~") : Traverses s := by
  rcases h with rfl | rfl
  · exact .inl (List.infix_refl _)
  · exact .inr (List.infix_refl _)

/-- What the rules about single segments refuse is refused already for the whole text. -/
theorem SegmentTraverses.traverses (h : SegmentTraverses path) : Traverses path := by
  rcases h with ⟨root, -, rest, rfl, s, hs, htraverses⟩ | ⟨volume, rest, hcut, s, hs, hname⟩
  · exact (htraverses.of_segment hs).append root
  · rw [hcut.eq]
    exact ((traverses_of_eq hname).of_segment hs).append (volume ++ ":/")

/-- **The guard refuses exactly** what lies below the two trees, what is a protected root or
everything in one, what has `..` or `~` anywhere, and what has a pattern in front of its first
`:/`. The rules about single segments add nothing to this. -/
theorem isDangerous_iff_rules (path : String) :
    (isDangerous path = true
        ↔ ("sdmc:/Nintendo/".toList <+: path.toList ∨ "sdmc:/emuMMC/".toList <+: path.toList)
          ∨ (∃ root ∈ protectedRoots, path = root ∨ path = root ++ "*" ∨ path = root ++ "*/")
          ∨ Traverses path
          ∨ ∃ volume rest, CutAtVolume path volume rest ∧ HasWildcard volume)
      ∧ (SegmentTraverses path → Traverses path) := by
  refine ⟨?_, SegmentTraverses.traverses⟩
  rw [isDangerous, Bool.or_eq_true, Bool.or_eq_true, Bool.or_eq_true, any_startsWith_iff,
    List.any_eq_true, hitsVolume_iff, any_contains_iff]
  constructor
  · rintro (((htree | ⟨root, hroot, hhits⟩) | ⟨volume, rest, hcut, hsegment | hwildcard⟩) | htext)
    · exact .inl htree
    · rcases hitsRoot_iff.1 hhits with hwhole | ⟨rest, hpath, hsegment⟩
      · exact .inr (.inl ⟨root, hroot, hwhole⟩)
      · exact .inr (.inr (.inl
          (SegmentTraverses.traverses (.inl ⟨root, hroot, rest, hpath, hsegment⟩))))
    · exact .inr (.inr (.inl (SegmentTraverses.traverses (.inr ⟨volume, rest, hcut, hsegment⟩))))
    · exact .inr (.inr (.inr ⟨volume, rest, hcut, hwildcard⟩))
    · exact .inr (.inr (.inl htext))
  · rintro (htree | ⟨root, hroot, hwhole⟩ | htext | ⟨volume, rest, hcut, hwildcard⟩)
    · exact .inl (.inl (.inl htree))
    · exact .inl (.inl (.inr ⟨root, hroot, hitsRoot_iff.2 (.inl hwhole)⟩))
    · exact .inr htext
    · exact .inl (.inr ⟨volume, rest, hcut, .inr hwildcard⟩)

end Guard

end PackageScript
