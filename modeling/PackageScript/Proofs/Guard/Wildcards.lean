import PackageScript.Proofs.Guard.Confinement

set_option autoImplicit false

/-! # Wildcards and the protected trees

The guard looks at the text of a path, and a wildcard stands for names that its text does not
tell. A path that the guard accepts can therefore still expand to something inside a tree in
which nothing may be deleted or moved. It does so exactly if its first segment admits the name of
that tree and the segments behind it lead on from there to something (`expand_enters_iff`), as
`sdmc:/*/Contents` does on a card with the directory `Nintendo/Contents`.
-/

namespace PackageScript

namespace Guard

theorem isPart_of_accepted {rest : String} (h : isDangerous (cardMark ++ rest) = false)
    (hdot : "." ∉ segments rest) : ∀ s ∈ segments rest, IsPart s := fun _ hs =>
  ⟨HostPath.isSegment_of_mem_steps hs, fun he => hdot (he ▸ hs), fun he =>
    dots_not_mem_segments_onCard h (he ▸ hs)⟩

theorem exists_pattern_segment {rest : String} (h : isPattern rest = true) :
    ∃ s ∈ segments rest, isPattern s = true := by
  rw [segments_eq_steps]
  exact isPattern_text_iff.1 h

end Guard

namespace Config

/-! ## The host path of a path on the card -/

theorem steps_hostPath_withRoot (root : HostPath) {rest : String}
    (hpattern : isPattern rest = true) :
    ((withRoot root).hostPath (cardMark ++ rest)).steps = root.steps ++ Guard.segments rest
      ∧ ((withRoot root).hostPath (cardMark ++ rest)).isRooted = root.isRooted
      ∧ isPattern ((withRoot root).hostPath (cardMark ++ rest)).text = true := by
  rw [hostPath_withRoot, Volume.steps_locate, Guard.segments_eq_names, Volume.isRooted_locate]
  exact ⟨rfl, rfl, Volume.isPattern_locate _ (isPattern_iff.1 hpattern)⟩

end Config

/-! ## Which accepted patterns reach into a protected tree -/

namespace FileSystem

variable {fs : FileSystem}

/-- **The expansion of an accepted pattern** follows the segments that the guard has seen, from
the root of the card. -/
theorem mem_expand_of_accepted (hfs : fs.Plain) {root : HostPath}
    (hroot : isPattern root.text = false) {rest : String} (hpattern : isPattern rest = true)
    (hparts : ∀ s ∈ Guard.segments rest, IsPart s) (q : HostPath) :
    q ∈ (fs.expand ((Config.withRoot root).hostPath (cardMark ++ rest))).1
      ↔ q ∈ (fs.descend Glob.matcher
          ((Config.withRoot root).hostPath (cardMark ++ rest)).endsWithSlash
          (Guard.segments rest) [root.rebuilt]).1 := by
  obtain ⟨hsteps, hrooted, hhost⟩ := Config.steps_hostPath_withRoot root hpattern
  exact mem_expandWith_iff Glob.matcher hfs hhost hsteps hrooted
    (fun _ hs => not_isPattern_of_mem_steps hroot hs) (Guard.exists_pattern_segment hpattern)
    hparts q

/-- Segments lead strictly below a name in a directory if the first of them admits the name, and
others go on from there. -/
theorem descend_enters_iff (hfs : fs.Plain) {matcher : String → Except GlobFault (String → Bool)}
    {dirsOnly : Bool} {segments : List String} (hparts : ∀ s ∈ segments, IsPart s)
    {d : HostPath} {tree : String} (htree : IsPart tree) :
    (∃ q ∈ (fs.descend matcher dirsOnly segments [d]).1, fs.StrictlyBelow (d.child tree) q)
      ↔ ∃ first next more, segments = first :: next :: more ∧ Admits matcher first tree
          ∧ (fs.descend matcher dirsOnly (next :: more) [d.child tree]).1 ≠ [] := by
  have htop := fs.locate_child d htree
  constructor
  · rintro ⟨q, hq, name, below, hplace⟩
    rw [htop, List.append_assoc, List.singleton_append] at hplace
    cases segments with
    | nil =>
        -- no segment leads anywhere but to the directory itself
        rw [descend, List.mem_singleton] at hq
        rw [hq] at hplace
        have hlength := congrArg List.length hplace
        rw [List.length_append, List.length_cons] at hlength
        omega
    | cons first others =>
        obtain ⟨n, hop, hq'⟩ := mem_descend_cons.1 hq
        have hn := hop.isPart hfs fun _ => hparts first List.mem_cons_self
        obtain ⟨names, hlength, hnames⟩ := locate_of_mem_descend hfs
          (fun s hs _ => hparts s (List.mem_cons_of_mem _ hs)) hq'
        -- the place of the match names the tree first, and then at least one more name
        rw [fs.locate_child _ hn, List.append_assoc, List.singleton_append, hplace,
          List.append_cancel_left_eq] at hnames
        obtain ⟨rfl, hnames⟩ := List.cons.inj hnames
        cases others with
        | nil =>
            rw [List.length_nil, List.length_eq_zero_iff] at hlength
            rw [hlength] at hnames
            cases hnames
        | cons next more =>
            exact ⟨first, next, more, rfl, hop.admits, List.ne_nil_of_mem hq'⟩
  · rintro ⟨first, next, more, rfl, hadmits, hne⟩
    obtain ⟨q, hq⟩ := List.exists_mem_of_ne_nil _ hne
    -- that something is found further on shows that the tree is there to be hopped to
    have hdir : fs.isDir (d.child tree) = true :=
      isDir_of_mem_descend hfs (HostPath.text_child_ne_empty _ htree.toIsSegment)
        (fun _ => hparts next (List.mem_cons_of_mem _ List.mem_cons_self)) hq
    refine ⟨q, mem_descend_cons.2 ⟨tree, .of_isDir_child hfs htree hadmits hdir, hq⟩, ?_⟩
    obtain ⟨names, hlength, hnames⟩ := locate_of_mem_descend hfs
      (fun s hs _ => hparts s (List.mem_cons_of_mem _ hs)) hq
    cases names with
    | nil => cases hlength
    | cons name below => exact ⟨name, below, hnames⟩

/-- **An accepted pattern reaches into a protected tree exactly if its first segment admits the
name of the tree, and the segments behind it lead on from there.** -/
theorem expand_enters_iff (hfs : fs.Plain) {root : HostPath}
    (hroot : isPattern root.text = false) {rest : String}
    (haccepted : Guard.isDangerous (cardMark ++ rest) = false)
    (hpattern : isPattern (cardMark ++ rest) = true) (hdot : "." ∉ Guard.segments rest)
    {tree : String} (htree : tree ∈ Guard.ultraProtectedNames) :
    (∃ q ∈ (fs.expand ((Config.withRoot root).hostPath (cardMark ++ rest))).1,
        fs.StrictlyBelow (root.child tree) q)
      ↔ ∃ first next more, Guard.segments rest = first :: next :: more
          ∧ Admits Glob.matcher first tree
          ∧ (fs.descend Glob.matcher
              ((Config.withRoot root).hostPath (cardMark ++ rest)).endsWithSlash
              (next :: more) [root.rebuilt.child tree]).1 ≠ [] := by
  have hname := (Guard.isName_of_mem_ultraProtectedNames tree htree).toIsPart
  have hparts := Guard.isPart_of_accepted haccepted hdot
  have hstar : isPattern rest = true := by
    simpa [isPattern, String.toList_append, cardMark] using hpattern
  have hbelow : ∀ q, fs.StrictlyBelow (root.child tree) q
      ↔ fs.StrictlyBelow (root.rebuilt.child tree) q := by
    intro q
    rw [StrictlyBelow, StrictlyBelow, fs.locate_child root hname, fs.locate_child _ hname,
      fs.locate_rebuilt]
  simp only [hbelow, mem_expand_of_accepted hfs hroot hstar hparts]
  exact descend_enters_iff hfs hparts hname

end FileSystem

/-! ### A wildcard in the first segment -/

/-- On that card the theorem says of `sdmc:/*/Contents` that it reaches into the tree, the star
admitting the name of the tree and `Contents` leading on. -/
theorem consoleCard_entered :
    consoleCard.Plain ∧ isPattern "/" = false
      ∧ Guard.isDangerous (cardMark ++ "*/Contents") = false
      ∧ isPattern (cardMark ++ "*/Contents") = true ∧ "." ∉ Guard.segments "*/Contents"
      ∧ "Nintendo" ∈ Guard.ultraProtectedNames
      ∧ ((∃ q ∈ (consoleCard.expand
              ((Config.withRoot ⟨"/"⟩).hostPath (cardMark ++ "*/Contents"))).1,
            consoleCard.StrictlyBelow (HostPath.child ⟨"/"⟩ "Nintendo") q)
          ↔ ∃ first next more, Guard.segments "*/Contents" = first :: next :: more
            ∧ FileSystem.Admits Glob.matcher first "Nintendo"
            ∧ (consoleCard.descend Glob.matcher
                ((Config.withRoot ⟨"/"⟩).hostPath (cardMark ++ "*/Contents")).endsWithSlash
                (next :: more) [(HostPath.rebuilt ⟨"/"⟩).child "Nintendo"]).1 ≠ []) :=
  ⟨consoleCard_plain, by decide +kernel, by decide +kernel, by decide +kernel, by decide +kernel,
    by decide, FileSystem.expand_enters_iff consoleCard_plain (by decide +kernel)
      (by decide +kernel) (by decide +kernel) (by decide +kernel) (by decide)⟩

/-- **The guard accepts a pattern that reaches into a protected tree.** -/
theorem accepted_pattern_enters :
    ¬ ∀ (fs : FileSystem) (root : HostPath) (rest : String), fs.Plain →
      isPattern root.text = false → Guard.isDangerous (cardMark ++ rest) = false →
      isPattern (cardMark ++ rest) = true → "." ∉ Guard.segments rest →
      ∀ tree ∈ Guard.ultraProtectedNames,
        ∀ q ∈ (fs.expand ((Config.withRoot root).hostPath (cardMark ++ rest))).1,
          ¬ fs.StrictlyBelow (root.child tree) q := by
  intro hall
  have hexpand : (consoleCard.expand
      ((Config.withRoot ⟨"/"⟩).hostPath (cardMark ++ "*/Contents"))).1
      = [⟨"/Nintendo/Contents"⟩] := by decide +kernel
  have hbelow : consoleCard.StrictlyBelow (HostPath.child ⟨"/"⟩ "Nintendo")
      ⟨"/Nintendo/Contents"⟩ := ⟨"Contents", [], by decide +kernel⟩
  exact hall consoleCard ⟨"/"⟩ "*/Contents" consoleCard_plain (by decide +kernel)
    (by decide +kernel) (by decide +kernel) (by decide +kernel) "Nintendo" (by decide)
    ⟨"/Nintendo/Contents"⟩ (by rw [hexpand]; exact List.mem_singleton_self _) hbelow

end PackageScript
