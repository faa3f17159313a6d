import PackageScript.Files.Expand
import PackageScript.Proofs.Guard.Protected

set_option autoImplicit false

/-! # Spellings of protected places

One place has many spellings. An argument can be quoted, begin with a slash instead of the mark of
the card, or repeat slashes, and all of this is evened out before the guard looks at the path. Two
spellings are left. A `.` as the first segment keeps a path on the card from beginning with the
name of a protected tree, and a path without the mark of the card is taken as a host path and may
lead onto the card from outside. An accepted path leads strictly below a protected tree exactly
if it is one of these spellings of a place there (`FileSystem.resolve_below_tree_iff`).
-/

namespace PackageScript

namespace Guard

/-- The names by which a path goes down. A `.` stays where it is. -/
def downNames (path : String) : List String := (segments path).filter (· != ".")

/-- **The spellings that the guard does not see through**: a script path that names something
strictly below a tree in the root of the card and is accepted all the same. -/
inductive Missed (fs : FileSystem) (root : HostPath) (tree : String) : String → Prop
  /-- A path on the card goes down to the tree behind a `.`. -/
  | behindDot {rest name : String} {below : List String} :
      (segments rest).head? = some "." → downNames rest = tree :: name :: below →
      Missed fs root tree (cardMark ++ rest)
  /-- A path without the mark of the card goes down to the tree from the working directory. -/
  | offCard {path name : String} {below : List String} :
      Text.startsWith path cardMark = false →
      fs.home ++ downNames path = fs.locate root ++ tree :: name :: below →
      Missed fs root tree path

/-- A path on the card that goes down into a protected tree is refused, unless a `.` comes
first. -/
theorem head?_segments_of_downNames {raw rest tree name : String} {below : List String}
    (hpath : scriptPath raw = cardMark ++ rest) (haccepted : isDangerous (cardMark ++ rest) = false)
    (htree : tree ∈ ultraProtectedNames) (hdown : downNames rest = tree :: name :: below) :
    (segments rest).head? = some "." := by
  cases hsegments : segments rest with
  | nil =>
      rw [downNames, hsegments] at hdown
      cases hdown
  | cons first others =>
      by_cases hdot : first = "."
      · rw [hdot, List.head?_cons]
      · -- otherwise the path begins with the name of the tree, and a slash follows
        rw [downNames, hsegments, List.filter_cons_of_pos (by simp [hdot])] at hdown
        obtain ⟨rfl, hothers⟩ := List.cons.inj hdown
        obtain ⟨next, more, rfl⟩ : ∃ next more, others = next :: more := by
          refine List.exists_cons_of_ne_nil ?_
          rintro rfl
          cases hothers
        rw [segments_eq_names] at hsegments
        obtain ⟨t, ht⟩ := Text.eq_of_names_eq_cons_cons (head?_of_scriptPath_eq hpath) hsegments
        exact absurd ht (ne_below_tree haccepted htree t)

end Guard

namespace FileSystem

variable {fs : FileSystem}

theorem locate_hostPath_onCard (fs : FileSystem) (root : HostPath) {rest : String}
    (hdots : ".." ∉ Guard.segments rest) :
    fs.locate ((Config.withRoot root).hostPath (cardMark ++ rest))
      = fs.locate root ++ Guard.downNames rest := by
  rw [Config.hostPath_withRoot, locate, origin, Volume.isRooted_locate, Volume.steps_locate,
    List.foldl_append, ← Guard.segments_eq_names, Place.foldl_step_of_dots_not_mem hdots]
  rfl

theorem locate_onCard (fs : FileSystem) (root : HostPath) {rest : String}
    (haccepted : Guard.isDangerous (cardMark ++ rest) = false) :
    fs.locate ((Config.withRoot root).hostPath (cardMark ++ rest))
      = fs.locate root ++ Guard.downNames rest :=
  fs.locate_hostPath_onCard root (Guard.dots_not_mem_segments_onCard haccepted)

theorem locate_offCard (fs : FileSystem) (root : HostPath) {raw : String}
    (haccepted : Guard.isDangerous (scriptPath raw) = false)
    (hoff : Text.startsWith (scriptPath raw) cardMark = false) :
    fs.locate ((Config.withRoot root).hostPath (scriptPath raw))
      = fs.home ++ Guard.downNames (scriptPath raw) := by
  have hdots := Guard.dots_not_mem_segments haccepted
  have hrelative : HostPath.isRooted ⟨scriptPath raw⟩ = false := by
    rw [Bool.eq_false_iff]
    exact fun h => head?_scriptPath raw (HostPath.isRooted_iff.1 h)
  rw [Config.hostPath_withRoot_of_not_startsWith root hoff, locate, origin, hrelative,
    ← Guard.segments_eq_steps, Place.foldl_step_of_dots_not_mem hdots]
  rfl

/-- What an accepted path spells lies strictly below a protected tree exactly if the guard has
missed it. -/
theorem strictlyBelow_iff_missed (fs : FileSystem) (root : HostPath) {raw : String}
    (haccepted : Guard.isDangerous (scriptPath raw) = false) {tree : String}
    (htree : tree ∈ Guard.ultraProtectedNames) :
    fs.StrictlyBelow (root.child tree) ((Config.withRoot root).hostPath (scriptPath raw))
      ↔ Guard.Missed fs root tree (scriptPath raw) := by
  have hpart := (Guard.isName_of_mem_ultraProtectedNames tree htree).toIsPart
  rw [StrictlyBelow, fs.locate_child root hpart]
  simp only [List.append_assoc, List.singleton_append]
  constructor
  · rintro ⟨name, below, hplace⟩
    by_cases hoff : Text.startsWith (scriptPath raw) cardMark = false
    · rw [fs.locate_offCard root haccepted hoff] at hplace
      exact .offCard hoff hplace
    · rw [Bool.not_eq_false] at hoff
      obtain ⟨rest, hrest⟩ : ∃ rest, scriptPath raw = cardMark ++ rest := by
        obtain ⟨t, ht⟩ := Option.isSome_iff_exists.1 hoff
        refine ⟨String.ofList t, String.toList_inj.1 ?_⟩
        rw [String.toList_append, String.toList_ofList]
        exact Text.dropStart?_eq_some_iff.1 ht
      rw [hrest] at haccepted hplace
      rw [fs.locate_onCard root haccepted, List.append_cancel_left_eq] at hplace
      rw [hrest]
      exact .behindDot (Guard.head?_segments_of_downNames hrest haccepted htree hplace) hplace
  · intro hmissed
    generalize hpath : scriptPath raw = path at hmissed haccepted ⊢
    cases hmissed with
    | behindDot hhead hdown =>
        exact ⟨_, _, by rw [fs.locate_onCard root haccepted, hdown]⟩
    | offCard hoff hdown =>
        subst hpath
        exact ⟨_, _, by rw [fs.locate_offCard root haccepted hoff, hdown]⟩

/-- **An accepted path leads strictly below a protected tree exactly if its way is open and the
guard does not see through its spelling.** -/
theorem resolve_below_tree_iff (hfs : fs.Plain) (root : HostPath) {raw : String}
    (haccepted : Guard.isDangerous (scriptPath raw) = false) {tree : String}
    (htree : tree ∈ Guard.ultraProtectedNames) (mode : Follow) :
    (∃ spot name below,
        fs.resolve mode ((Config.withRoot root).hostPath (scriptPath raw)) = .ok spot
          ∧ spot.place = fs.locate (root.child tree) ++ name :: below)
      ↔ fs.Leads ((Config.withRoot root).hostPath (scriptPath raw))
        ∧ Guard.Missed fs root tree (scriptPath raw) := by
  rw [← fs.strictlyBelow_iff_missed root haccepted htree]
  constructor
  · rintro ⟨spot, name, below, hspot, hplace⟩
    obtain ⟨hleads, rfl⟩ := (resolve_eq_ok_iff hfs).1 hspot
    exact ⟨hleads, name, below, hplace⟩
  · rintro ⟨hleads, name, below, hplace⟩
    exact ⟨_, name, below, resolve_eq_ok hfs hleads, hplace⟩

end FileSystem

/-! ### A dot in front -/

/-- On a card with the directory `Nintendo/Contents` the theorem says of `sdmc:/./Nintendo/Contents`
that it leads into the tree. -/
theorem consoleCard_missed :
    consoleCard.Plain
      ∧ Guard.isDangerous (scriptPath "sdmc:/./Nintendo/Contents") = false
      ∧ "Nintendo" ∈ Guard.ultraProtectedNames
      ∧ ((∃ spot name below,
          consoleCard.resolve .always
              ((Config.withRoot ⟨"/"⟩).hostPath (scriptPath "sdmc:/./Nintendo/Contents")) = .ok spot
            ∧ spot.place = consoleCard.locate (HostPath.child ⟨"/"⟩ "Nintendo") ++ name :: below)
        ↔ consoleCard.Leads
            ((Config.withRoot ⟨"/"⟩).hostPath (scriptPath "sdmc:/./Nintendo/Contents"))
          ∧ Guard.Missed consoleCard ⟨"/"⟩ "Nintendo" (scriptPath "sdmc:/./Nintendo/Contents")) :=
  ⟨consoleCard_plain, by decide +kernel, by decide,
    FileSystem.resolve_below_tree_iff consoleCard_plain ⟨"/"⟩ (by decide +kernel) (by decide)
      .always⟩

/-- **The guard accepts a path that leads into a protected tree.** -/
theorem accepted_spelling_enters :
    ¬ ∀ (fs : FileSystem) (root : HostPath) (raw : String), fs.Plain → isPattern raw = false →
      Guard.isDangerous (scriptPath raw) = false → ∀ (mode : Follow) (spot : Spot),
      fs.resolve mode ((Config.withRoot root).hostPath (scriptPath raw)) = .ok spot →
      ∀ tree ∈ Guard.ultraProtectedNames, ∀ name below,
        spot.place ≠ fs.locate (root.child tree) ++ name :: below := by
  intro hall
  have hresolve : consoleCard.resolve .always
      ((Config.withRoot ⟨"/"⟩).hostPath (scriptPath "sdmc:/./Nintendo/Contents"))
      = .ok ⟨["Nintendo", "Contents"], false⟩ := by decide +kernel
  exact hall consoleCard ⟨"/"⟩ "sdmc:/./Nintendo/Contents" consoleCard_plain (by decide +kernel)
    (by decide +kernel) .always _ hresolve "Nintendo" (by decide) "Contents" []
    (by decide +kernel)

end PackageScript
