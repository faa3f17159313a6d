import PackageScript.Proofs.Files.Sweeps
import PackageScript.Proofs.Glob
import PackageScript.Proofs.Guard.Protected

set_option autoImplicit false

/-! # Emptying a protected root

The roots that the guard protects are not to be deleted as a whole. It refuses the root itself,
`*` and `*/` behind it. Other texts stand for everything in the root too: `**`, `./*`, or the root
with a dot behind it. An accepted path below a protected root leaves something of it, in some tree,
exactly if it does not sweep the root (`Setting.delete_keeps_some_iff`).
-/

namespace PackageScript

open HostPath (Sweeps)

namespace Guard

/-- What the protected roots are called behind the mark of the card. -/
def protectedEnds : List String :=
  ["Nintendo/", "emuMMC/", "atmosphere/", "bootloader/", "switch/", "config/", ""]

theorem protectedRoots_eq : protectedRoots = protectedEnds.map (cardMark ++ ·) := rfl

theorem segments_append_of_mem_protectedEnds {r : String} (hr : r ∈ protectedEnds)
    (rest : String) : segments (r ++ rest) = segments r ++ segments rest := by
  have hends : ∀ r ∈ protectedEnds, r = "" ∨ ∃ name ∈ ["Nintendo", "emuMMC", "atmosphere",
      "bootloader", "switch", "config"], r = name ++ "/" := by decide
  rcases hends r hr with rfl | ⟨name, -, rfl⟩
  · rw [String.empty_append]
    rfl
  · rw [segments_eq_names, segments_eq_names, segments_eq_names, String.toList_append,
      String.toList_append, List.append_assoc]
    exact (Text.names_slash _ _).trans (congrArg (· ++ _) (Text.names_append_slash _).symm)

theorem plain_of_mem_protectedEnds : ∀ r ∈ protectedEnds,
    (∀ s ∈ segments r, ¬ isPattern s = true) ∧ ".." ∉ segments r := by
  decide

theorem dots_not_mem_below_protectedRoot {R rest : String} (hR : R ∈ protectedRoots)
    (h : isDangerous (R ++ rest) = false) : ".." ∉ segments rest := by
  rw [protectedRoots_eq] at hR
  obtain ⟨r, hr, rfl⟩ := List.mem_map.1 hR
  rw [String.append_assoc] at h
  have hdots := dots_not_mem_segments_onCard h
  rw [segments_append_of_mem_protectedEnds hr] at hdots
  exact fun hmem => hdots (List.mem_append_right _ hmem)

end Guard

namespace Config

theorem hostPath_below_protectedRoot (root : HostPath) {R : String}
    (hR : R ∈ Guard.protectedRoots) (rest : String) :
    ((withRoot root).hostPath (R ++ rest)).steps
        = ((withRoot root).hostPath R).steps ++ Guard.segments rest
      ∧ ((withRoot root).hostPath (R ++ rest)).isRooted
        = ((withRoot root).hostPath R).isRooted := by
  rw [Guard.protectedRoots_eq] at hR
  obtain ⟨r, hr, rfl⟩ := List.mem_map.1 hR
  rw [String.append_assoc, hostPath_withRoot, hostPath_withRoot, Volume.isRooted_locate,
    Volume.isRooted_locate, Volume.steps_locate, Volume.steps_locate, ← Guard.segments_eq_names,
    ← Guard.segments_eq_names, Guard.segments_append_of_mem_protectedEnds hr, List.append_assoc]
  exact ⟨rfl, rfl⟩

/-- The host path of a protected root has no wildcard and does not lead up, if that of the card
does not. -/
theorem plain_hostPath_protectedRoot {root : HostPath} (hroot : isPattern root.text = false)
    (hup : ".." ∉ root.steps) {R : String} (hR : R ∈ Guard.protectedRoots) :
    (∀ s ∈ ((withRoot root).hostPath R).steps, ¬ isPattern s = true)
      ∧ ".." ∉ ((withRoot root).hostPath R).steps := by
  rw [Guard.protectedRoots_eq] at hR
  obtain ⟨r, hr, rfl⟩ := List.mem_map.1 hR
  obtain ⟨hplain, hdots⟩ := Guard.plain_of_mem_protectedEnds r hr
  rw [hostPath_withRoot, Volume.steps_locate, ← Guard.segments_eq_names]
  exact ⟨fun s hs => (List.mem_append.1 hs).elim (fun h => not_isPattern_of_mem_steps hroot h)
    (hplain s), fun hs => (List.mem_append.1 hs).elim hup hdots⟩

theorem endsWithSlash_hostPath_name (root : HostPath) (front : String) {name : String}
    (h : IsSegment name) :
    ((withRoot root).hostPath (cardMark ++ (front ++ name))).endsWithSlash = false := by
  obtain ⟨front', hbelow⟩ : ∃ front' : List Char,
      (front ++ name).toList.dropWhile (· == '/') = front' ++ name.toList := by
    have hkeep : name.toList.dropWhile (· == '/') = name.toList := by
      obtain ⟨c, cs, hc⟩ := List.exists_cons_of_ne_nil h.toList_ne_nil
      have hslash : c ≠ '/' := by
        rintro rfl
        exact h.no_slash (hc ▸ List.mem_cons_self)
      simp [hc, hslash]
    rw [String.toList_append, List.dropWhile_append, hkeep]
    split
    · exact ⟨[], rfl⟩
    · exact ⟨_, rfl⟩
  have hrelative := Volume.isRooted_dropWhile_slash (front ++ name).toList
  obtain ⟨c, cs, hc⟩ : ∃ c cs, front' ++ name.toList = c :: cs :=
    List.exists_cons_of_ne_nil fun hnil => h.toList_ne_nil (List.append_eq_nil_iff.1 hnil).2
  rw [hostPath_withRoot, Volume.locate, hbelow]
  rw [hbelow] at hrelative
  rw [hc] at hrelative ⊢
  dsimp only
  rw [root.join_eq hrelative, ← hc, String.ofList_append, String.ofList_toList,
    ← String.append_assoc]
  exact HostPath.endsWithSlash_of_name _ h

end Config

/-- **Stars sweep a protected root**, however many there are. The guard refuses a single one. -/
theorem HostPath.Sweeps.of_stars {root : HostPath} {R : String} (hR : R ∈ Guard.protectedRoots)
    (hshort : ((Config.withRoot root).hostPath R).rebuilt.text.utf8ByteSize + 256 < pathLimit)
    (n : Nat) :
    Sweeps ((Config.withRoot root).hostPath R)
      ((Config.withRoot root).hostPath (R ++ Glob.stars n)) := by
  have hstars := Glob.isSegment_stars n
  obtain ⟨hsteps, hrooted⟩ := Config.hostPath_below_protectedRoot root hR (Glob.stars n)
  rw [Guard.segments_eq_names, Text.names_eq_singleton hstars.toList_ne_nil hstars.no_slash,
    String.ofList_toList] at hsteps
  have hend : ((Config.withRoot root).hostPath (R ++ Glob.stars n)).endsWithSlash = false := by
    rw [Guard.protectedRoots_eq] at hR
    obtain ⟨r, -, rfl⟩ := List.mem_map.1 hR
    rw [String.append_assoc]
    exact Config.endsWithSlash_hostPath_name root r hstars
  have hdots : ((Config.withRoot root).hostPath (R ++ Glob.stars n)).steps
      = ((Config.withRoot root).hostPath R).steps ++ List.replicate 0 "." ++ [Glob.stars n] := by
    rw [hsteps, List.replicate_zero, List.append_nil]
  refine .entries hdots hrooted (Glob.isPattern_stars n) hend fun name hname =>
    ⟨Glob.admits_stars n hname, ?_⟩
  have hbase : ((Config.withRoot root).hostPath R).behindDots 0
      = ((Config.withRoot root).hostPath R).rebuilt := by
    rw [HostPath.behindDots, List.replicate_zero, List.foldl_nil]
  have hsize := ((Config.withRoot root).hostPath R).rebuilt.size_child_le hname.toIsSegment
  have hname255 := hname.short
  rw [hbase]
  omega

namespace Setting

/-- **Some link-free tree keeps an entry of a directory through a deletion.** Trees that reach so
deep that their paths cannot be opened do not count, since no deletion takes these. -/
def KeepsSome (s : Setting) (w : World) (dir : HostPath) (raw : String) : Prop :=
  ∃ (fs : FileSystem) (name : String), fs.Plain ∧ fs.isDir dir = true
    ∧ (∀ q ∈ (fs.expand (s.config.hostPath (scriptPath raw))).1, fs.exists? q = true → fs.InReach q)
    ∧ fs.entryAt? (fs.locate dir ++ [name]) ≠ none
    ∧ ((s.delete raw).filesAfter { w with files := fs }).entryAt? (fs.locate dir ++ [name]) ≠ none

variable {s : Setting} {w : World} {root : HostPath} {R rest raw : String}

theorem not_keepsSome_of_sweeps (hconfig : s.config = .withRoot root)
    (hroot : isPattern root.text = false) (hup : ".." ∉ root.steps)
    (hR : R ∈ Guard.protectedRoots) (hraw : scriptPath raw = R ++ rest)
    (haccepted : Guard.isDangerous (R ++ rest) = false)
    (hsweeps : Sweeps ((Config.withRoot root).hostPath R)
      ((Config.withRoot root).hostPath (R ++ rest))) :
    ¬ s.KeepsSome w ((Config.withRoot root).hostPath R) raw := by
  rintro ⟨fs, name, hfs, hdir, hreach, -, hkept⟩
  obtain ⟨hplain, hdots⟩ := Config.plain_hostPath_protectedRoot hroot hup hR
  rw [hconfig, hraw] at hreach
  rw [filesAfter_delete, hconfig, hraw, haccepted, if_neg (by simp)] at hkept
  exact hkept (hsweeps.nothing_left hfs hdots hplain hdir hreach name)

/-- **An accepted path below a protected root leaves something of it exactly if it does not sweep
the root.** -/
theorem delete_keeps_some_iff (hconfig : s.config = .withRoot root)
    (hroot : isPattern root.text = false) (hup : ".." ∉ root.steps)
    (hR : R ∈ Guard.protectedRoots) (hraw : scriptPath raw = R ++ rest)
    (haccepted : Guard.isDangerous (R ++ rest) = false)
    (hempty : ∃ fs : FileSystem,
      fs.Plain ∧ fs.readDir ((Config.withRoot root).hostPath R) = .ok []) :
    s.KeepsSome w ((Config.withRoot root).hostPath R) raw
      ↔ ¬ Sweeps ((Config.withRoot root).hostPath R)
          ((Config.withRoot root).hostPath (R ++ rest)) := by
  constructor
  · intro hkeeps hsweeps
    exact not_keepsSome_of_sweeps hconfig hroot hup hR hraw haccepted hsweeps hkeeps
  · intro hnot
    obtain ⟨fs0, hfs0, hlist⟩ := hempty
    obtain ⟨hplain, -⟩ := Config.plain_hostPath_protectedRoot hroot hup hR
    obtain ⟨hsteps, hrooted⟩ := Config.hostPath_below_protectedRoot root hR rest
    -- the file that the pattern misses is not touched
    obtain ⟨fs, name, halone, hmissed⟩ :=
      FileSystem.exists_missed hfs0 hlist hsteps hrooted hplain
        (Guard.dots_not_mem_below_protectedRoot hR haccepted) hnot
    obtain ⟨b, hfile⟩ := halone.file
    refine ⟨fs, name, halone.plain, halone.dir, ?_, by rw [hfile]; simp, ?_⟩
    · rw [hconfig, hraw]
      intro q hq hex
      rw [hmissed q hq] at hex
      cases hex
    · rw [filesAfter_delete, hconfig, hraw, haccepted, if_neg (by simp),
        FileAction.after_forEach_deleteTree_of_missing halone.plain hmissed, hfile]
      simp

/-- Of `sdmc:/switch` the theorem says that `sdmc:/switch/*.nro` leaves something of it. -/
theorem apps_kept :
    Setting.onRootCard.config = .withRoot ⟨"/"⟩
      ∧ isPattern (HostPath.mk "/").text = false
      ∧ ".." ∉ HostPath.steps ⟨"/"⟩
      ∧ "sdmc:/switch/" ∈ Guard.protectedRoots
      ∧ scriptPath "sdmc:/switch/*.nro" = "sdmc:/switch/" ++ "*.nro"
      ∧ Guard.isDangerous ("sdmc:/switch/" ++ "*.nro") = false
      ∧ (∃ fs : FileSystem, fs.Plain
          ∧ fs.readDir ((Config.withRoot ⟨"/"⟩).hostPath "sdmc:/switch/") = .ok [])
      ∧ (Setting.onRootCard.KeepsSome (.ofFiles (.empty []))
          ((Config.withRoot ⟨"/"⟩).hostPath "sdmc:/switch/") "sdmc:/switch/*.nro"
        ↔ ¬ Sweeps ((Config.withRoot ⟨"/"⟩).hostPath "sdmc:/switch/")
            ((Config.withRoot ⟨"/"⟩).hostPath ("sdmc:/switch/" ++ "*.nro"))) := by
  have hempty : ∃ fs : FileSystem, fs.Plain
      ∧ fs.readDir ((Config.withRoot ⟨"/"⟩).hostPath "sdmc:/switch/") = .ok [] := by
    have hplain : ((FileSystem.empty []).setDir ([] ++ ["switch"])).Plain :=
      FileSystem.plain_empty.setDir rfl (by decide) rfl
    have hcount : (((FileSystem.empty []).setDir ["switch"]).readDir
        ((Config.withRoot ⟨"/"⟩).hostPath "sdmc:/switch/")).toOption.map List.length = some 0 := by
      decide +kernel
    cases hlist : ((FileSystem.empty []).setDir ["switch"]).readDir
        ((Config.withRoot ⟨"/"⟩).hostPath "sdmc:/switch/") with
    | error e =>
        rw [hlist] at hcount
        cases hcount
    | ok names =>
        rw [hlist] at hcount
        rw [List.length_eq_zero_iff.1 (Option.some.inj hcount)] at hlist
        exact ⟨_, hplain, hlist⟩
  have hraw : scriptPath "sdmc:/switch/*.nro" = "sdmc:/switch/" ++ "*.nro" := by decide +kernel
  have haccepted : Guard.isDangerous ("sdmc:/switch/" ++ "*.nro") = false := by decide +kernel
  exact ⟨rfl, by decide, by decide, by decide, hraw, haccepted, hempty,
    delete_keeps_some_iff rfl (by decide) (by decide) (by decide) hraw haccepted hempty⟩

/-- **The guard accepts a path that leaves nothing of a protected root.** -/
theorem accepted_pattern_sweeps :
    ¬ ∀ (root : HostPath) (s : Setting) (w : World) (R rest raw : String),
      s.config = .withRoot root → R ∈ Guard.protectedRoots → scriptPath raw = R ++ rest →
      Guard.isDangerous (R ++ rest) = false →
      s.KeepsSome w ((Config.withRoot root).hostPath R) raw := by
  intro hall
  have hsweeps : Sweeps ((Config.withRoot ⟨"/"⟩).hostPath "sdmc:/switch/")
      ((Config.withRoot ⟨"/"⟩).hostPath ("sdmc:/switch/" ++ Glob.stars 1)) :=
    .of_stars (by decide) (by decide +kernel) 1
  have hraw : scriptPath "sdmc:/switch/**" = "sdmc:/switch/" ++ "**" := by decide +kernel
  have haccepted : Guard.isDangerous ("sdmc:/switch/" ++ "**") = false := by decide +kernel
  exact not_keepsSome_of_sweeps rfl (by decide) (by decide) (by decide) hraw haccepted hsweeps
    (hall ⟨"/"⟩ Setting.onRootCard (.ofFiles (.empty [])) "sdmc:/switch/" "**" "sdmc:/switch/**" rfl
      (by decide) hraw haccepted)

end Setting

end PackageScript
