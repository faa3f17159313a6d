import PackageScript.Proofs.Files.Spared
import PackageScript.Proofs.Guard.Spellings

set_option autoImplicit false

/-! # Mirrors and the protected trees

What a mirror command removes is joined twice: the names of the mirrored tree go below the target
as a host path, which is removed, and below the target as a script path, which the guard is asked
about. The two joinings differ in the slashes that they put in between and in what they make of a
backslash. This file shows that they agree where it matters: if the host path leads below a
protected tree, the script path begins with the name of the tree and a slash
(`ScriptPath.join_below_tree`), so the guard refuses it, and no file in such a tree is removed
(`Setting.mirrorDelete_spares_protected`).
-/

namespace PackageScript

/-! ## Joining below the card -/

namespace ScriptPath

/-- A backslash written as a slash. -/
def slashed (relative : String) : String := relative.map fun c => if c = '\\' then '/' else c

/-- What is joined to a path on the card stays behind its mark, after a slash unless one is there
or nothing is. -/
theorem join_onCard (rest relative : String) :
    join (cardMark ++ rest) relative
        = cardMark ++ (rest ++ slashed relative) ∧ (rest = "" ∨ Text.endsWith rest '/' = true)
      ∨ join (cardMark ++ rest) relative = cardMark ++ (rest ++ "/" ++ slashed relative) := by
  have hne : (cardMark ++ rest).isEmpty = false := by
    rw [Bool.eq_false_iff, ne_eq, String.isEmpty_iff, ← String.toList_eq_nil_iff,
      String.toList_append]
    exact fun h => by cases (List.append_eq_nil_iff.1 h).1
  rw [join]
  by_cases hslash : Text.endsWith (cardMark ++ rest) '/' = true
  · left
    rw [if_pos (by rw [hslash, Bool.or_true])]
    refine ⟨String.append_assoc, ?_⟩
    by_cases hrest : rest = ""
    · exact Or.inl hrest
    · right
      rw [Text.endsWith, String.toList_append,
        List.getLast?_append_of_ne_nil _ (mt String.toList_eq_nil_iff.1 hrest)] at hslash
      exact hslash
  · right
    rw [if_neg (by rw [hne, Bool.false_or]; exact hslash), String.append_assoc,
      String.append_assoc, String.append_assoc]
    rfl

/-- **The two joinings agree on the protected trees.** If the names of a target on the card and
those joined to it go down into a protected tree, the joined script path begins with the name of
the tree and a slash. -/
theorem join_below_tree {rest tree name : String} {names below : List String}
    (hhead : rest.toList.head? ≠ some '/') (htree : tree ∈ Guard.ultraProtectedNames)
    (hdown : Guard.segments rest ++ names = tree :: name :: below) :
    ∃ joined t, join (cardMark ++ rest) ("/".intercalate names) = cardMark ++ joined
      ∧ joined.toList = tree.toList ++ '/' :: t := by
  have hname := Guard.isName_of_mem_ultraProtectedNames tree htree
  cases hsegments : Guard.segments rest with
  | nil =>
      -- the target is the card itself, so that the tree is named by what is joined to it
      have hrest : rest = "" := by
        apply Decidable.byContradiction
        intro hrest
        obtain ⟨c, cs, hcs⟩ := List.exists_cons_of_ne_nil (mt String.toList_eq_nil_iff.1 hrest)
        rw [Guard.segments_eq_names, hcs] at hsegments
        rw [hcs] at hhead
        obtain ⟨n, hn, -⟩ := Text.exists_name_of_mem (c := c) (s := c :: cs) List.mem_cons_self
          fun he => hhead (by rw [he]; rfl)
        rw [hsegments] at hn
        cases hn
      rw [hsegments, List.nil_append] at hdown
      have hkeep : ∀ tree ∈ Guard.ultraProtectedNames, (slashed tree).toList = tree.toList := by
        decide +kernel
      have hslashed : (slashed ("/".intercalate names)).toList
          = tree.toList ++ '/' :: (slashed ("/".intercalate (name :: below))).toList := by
        rw [hdown, String.intercalate_cons_cons, ← hkeep tree htree]
        simp [slashed, String.toList_map, String.toList_append]
      subst hrest
      exact ⟨slashed ("/".intercalate names), _, by rfl, hslashed⟩
  | cons first more =>
      rw [hsegments] at hdown
      obtain ⟨rfl, -⟩ := List.cons.inj hdown
      rw [Guard.segments_eq_names] at hsegments
      rcases Text.eq_of_names_eq_cons hhead hsegments with heq | ⟨t, ht⟩
      · -- the target is the tree without a slash, and joining puts one behind it
        have hend : ¬ (rest = "" ∨ Text.endsWith rest '/' = true) := by
          rintro (hempty | hslash)
          · exact hname.ne_empty (String.toList_inj.1 (heq ▸ hempty ▸ rfl))
          · rw [Text.endsWith, heq, beq_iff_eq] at hslash
            exact hname.no_slash (List.mem_of_getLast? hslash)
        rcases join_onCard rest ("/".intercalate names) with ⟨-, h⟩ | hjoin
        · exact absurd h hend
        · exact ⟨_, (slashed ("/".intercalate names)).toList, hjoin, by
            simp [String.toList_append, heq]⟩
      · rcases join_onCard rest ("/".intercalate names) with ⟨hjoin, -⟩ | hjoin
        · exact ⟨_, t ++ (slashed ("/".intercalate names)).toList, hjoin, by
            simp [String.toList_append, ht]⟩
        · exact ⟨_, t ++ '/' :: (slashed ("/".intercalate names)).toList, hjoin, by
            simp [String.toList_append, ht]⟩

theorem infix_join_onCard (rest relative : String) :
    rest.toList <:+: (join (cardMark ++ rest) relative).toList := by
  rcases join_onCard rest relative with ⟨hjoin, -⟩ | hjoin
  · exact ⟨cardMark.toList, (slashed relative).toList, by
      rw [hjoin]
      simp [String.toList_append]⟩
  · exact ⟨cardMark.toList, ("/" ++ slashed relative).toList, by
      rw [hjoin]
      simp [String.toList_append]⟩

end ScriptPath

/-! ## What the guard lets a mirror command remove -/

namespace Setting

variable {fs : FileSystem} {root : HostPath}

theorem refusesMirror_below_tree {raw rest tree name : String} {names below : List String}
    (hpath : scriptPath raw = cardMark ++ rest) (hdot : "." ∉ Guard.segments rest)
    (htree : tree ∈ Guard.ultraProtectedNames)
    (hplace : fs.locate ((Config.withRoot root).hostPath (cardMark ++ rest)) ++ names
      = fs.locate root ++ tree :: name :: below) :
    refusesMirror (cardMark ++ rest) ("/".intercalate names) = true := by
  apply Decidable.byContradiction
  intro hrefused
  have haccepted : Guard.isDangerous
      (ScriptPath.join (cardMark ++ rest) ("/".intercalate names)) = false :=
    Bool.not_eq_true _ ▸ hrefused
  -- the guard has seen the target's text, and there is nothing in it that leads up
  have hdots : ".." ∉ Guard.segments rest := by
    intro hmem
    rw [Guard.segments_eq_names] at hmem
    exact Guard.not_dots_infix haccepted
      ((Text.infix_of_mem_names hmem).trans (ScriptPath.infix_join_onCard rest _))
  have hdown : Guard.downNames rest = Guard.segments rest :=
    List.filter_eq_self.2 fun s hs => by
      simpa using fun he : s = "." => hdot (he ▸ hs)
  rw [fs.locate_hostPath_onCard root hdots, hdown, List.append_assoc,
    List.append_cancel_left_eq] at hplace
  obtain ⟨joined, t, hjoin, ht⟩ :=
    ScriptPath.join_below_tree (head?_of_scriptPath_eq hpath) htree hplace
  rw [hjoin] at haccepted
  exact Guard.ne_below_tree haccepted htree t ht

/-- A target of a mirror command that is given is on the card, in a spelling without `.`. -/
def CardTarget (rest : List String) : Prop :=
  ∀ raw ∈ rest.head?, Text.startsWith (scriptPath raw) cardMark = true
    ∧ "." ∉ Guard.segments (scriptPath raw)

/-- A target on the card is a script path behind the mark, whether it is given or not. -/
theorem mirrorTarget_onCard {s : Setting} (hconfig : s.config = Config.withRoot root)
    {rest : List String} (htarget : CardTarget rest) :
    ∃ raw below, s.mirrorTarget rest = cardMark ++ below ∧ scriptPath raw = cardMark ++ below
      ∧ "." ∉ Guard.segments below := by
  cases rest with
  | nil =>
      refine ⟨cardMark, "", ?_, by decide, by decide⟩
      rw [mirrorTarget, hconfig]
      rfl
  | cons raw more =>
      obtain ⟨hstart, hdot⟩ := htarget raw rfl
      obtain ⟨t, ht⟩ := Option.isSome_iff_exists.1 hstart
      have hpath : scriptPath raw = cardMark ++ String.ofList t := by
        rw [← String.toList_inj, String.toList_append, String.toList_ofList]
        exact Text.dropStart?_eq_some_iff.1 ht
      rw [hpath, Guard.segments_onCard] at hdot
      exact ⟨raw, String.ofList t, hpath, hpath, fun hmem => hdot (List.mem_cons_of_mem _ hmem)⟩

/-- **Removing a mirror takes no file out of a protected tree**, whatever names the mirrored tree
has, and however the command ends. -/
theorem mirrorDelete_spares_protected {s : Setting} (hconfig : s.config = Config.withRoot root)
    {rest : List String} (htarget : CardTarget rest) {w : World} (hfs : w.files.Plain)
    (src : String) :
    ∀ tree ∈ Guard.ultraProtectedNames, ∀ name below b,
      w.files.entryAt? (w.files.locate (root.child tree) ++ name :: below) = some (.file b) →
      ((s.mirrorDelete src rest).filesAfter w).entryAt?
        (w.files.locate (root.child tree) ++ name :: below) = some (.file b) := by
  intro tree htree name below b hb
  obtain ⟨raw, target, hmirror, hpath, hdot⟩ := mirrorTarget_onCard hconfig htarget
  have hpart := (Guard.isName_of_mem_ultraProtectedNames tree htree).toIsPart
  rw [w.files.locate_child root hpart, List.append_assoc, List.singleton_append] at hb ⊢
  rw [filesAfter_mirrorDelete, hmirror, hconfig, FileSystem.mirrorDelete]
  refine (MirrorDeletion.ofEntries_spares (fun e he n hn => ?_) hfs 0).file _ b ?_ hb
  · exact (FileSystem.isName_of_mem_mirrorEntries hfs (List.mem_reverse.1 he) n hn).toIsPart
  · -- a counterpart in the tree would have been refused
    rintro ⟨e, -, hgranted, hplace⟩
    rw [MirrorEntry.path, refusesMirror_below_tree hpath hdot htree hplace.symm] at hgranted
    cases hgranted

/-! ### A backup of a protected tree -/

/-- The theorem says of the card that removing the mirror from its root leaves the file in the
protected tree. -/
theorem backedUpCard_save_spared :
    let place := backedUpCard.locate (HostPath.child ⟨"/"⟩ "Nintendo") ++ ["save"]
    onRootCard.config = Config.withRoot ⟨"/"⟩ ∧ CardTarget ["sdmc:/"] ∧ backedUpCard.Plain
      ∧ "Nintendo" ∈ Guard.ultraProtectedNames
      ∧ backedUpCard.entryAt? place = some (.file ⟨#[49]⟩)
      ∧ ((onRootCard.mirrorDelete "sdmc:/backup" ["sdmc:/"]).filesAfter
          (World.ofFiles backedUpCard)).entryAt? place = some (.file ⟨#[49]⟩) := by
  intro place
  have htarget : CardTarget ["sdmc:/"] := by
    rintro raw ⟨⟩
    exact ⟨by decide +kernel, by decide +kernel⟩
  have htree : "Nintendo" ∈ Guard.ultraProtectedNames := by decide
  have hplace : backedUpCard.locate (HostPath.child ⟨"/"⟩ "Nintendo") = ["Nintendo"] := by
    decide +kernel
  have hfile : backedUpCard.entryAt? place = some (.file ⟨#[49]⟩) := by
    show backedUpCard.entryAt? (backedUpCard.locate _ ++ _) = _
    rw [hplace]
    rfl
  exact ⟨rfl, htarget, backedUpCard_plain, htree, hfile,
    mirrorDelete_spares_protected rfl htarget backedUpCard_plain
      "sdmc:/backup" "Nintendo" htree "save" [] ⟨#[49]⟩ hfile⟩

end Setting

end PackageScript
