import PackageScript.Proofs.Files.Below
import PackageScript.Proofs.Files.Expand

set_option autoImplicit false

/-! # Dots behind a path

Dots behind a path make it longer and lead nowhere (`FileSystem.locate_dotted`). So there is a
path to every directory that is just short enough to be opened (`FileSystem.isDir_dotted`), while
the names of its entries make paths that are too long. `HostPath.rootDots` are such paths to the
root of the disk.
-/

namespace PackageScript

theorem Text.width_dots (k : Nat) (names : List String) :
    width (List.replicate k "." ++ names) = k * 2 + width names := by
  induction k with
  | zero => rw [List.replicate_zero, List.nil_append, Nat.zero_mul, Nat.zero_add]
  | succ k ih =>
      have hdot : ("." : String).utf8ByteSize = 1 := rfl
      rw [List.replicate_succ, List.cons_append, width_cons, ih, hdot]
      omega

namespace HostPath

variable {d b p : HostPath}

/-- The path behind a directory and some dots. -/
def behindDots (d : HostPath) (k : Nat) : HostPath :=
  (List.replicate k ".").foldl child d.rebuilt

/-- **A path that repeats another up to dots at its end.** -/
structure Dotted (d b : HostPath) : Prop where
  steps : ∃ k, b.steps = d.steps ++ List.replicate k "."
  rooted : b.isRooted = d.isRooted

theorem steps_behindDots (d : HostPath) (k : Nat) :
    (d.behindDots k).steps = d.steps ++ List.replicate k "." := by
  rw [behindDots, steps_foldl_child (fun _ => isSegment_of_mem_dots), steps_rebuilt]

theorem dotted_behindDots (d : HostPath) (k : Nat) : Dotted d (d.behindDots k) := by
  refine ⟨⟨k, d.steps_behindDots k⟩, ?_⟩
  rw [behindDots, isRooted_foldl_child (fun _ => isSegment_of_mem_dots), isRooted_rebuilt]

/-- A path with a text has a name in it, or begins with a slash. -/
theorem isRooted_of_steps_eq_nil (hsteps : p.steps = []) (htext : p.text ≠ "") :
    p.isRooted = true := by
  obtain ⟨c, cs, hc⟩ := List.exists_cons_of_ne_nil (mt String.toList_eq_nil_iff.1 htext)
  rw [isRooted_iff, hc, List.head?_cons]
  by_cases hslash : c = '/'
  · rw [hslash]
  · obtain ⟨name, hname, -⟩ := Text.exists_name_of_mem (s := p.text.toList)
      (hc ▸ List.mem_cons_self) hslash
    rw [← steps_eq, hsteps] at hname
    cases hname

theorem Dotted.usable (h : Dotted d b) (hd : FileSystem.Usable d)
    (hshort : b.text.utf8ByteSize < pathLimit) : FileSystem.Usable b := by
  obtain ⟨k, hsteps⟩ := h.steps
  refine ⟨fun hnul => ?_, fun hempty => ?_, hshort⟩
  · -- what is in the text is a slash or stands in one of the names
    obtain ⟨name, hname, hmem⟩ := Text.exists_name_of_mem hnul (by decide)
    rw [← steps_eq, hsteps] at hname
    rcases List.mem_append.1 hname with hname | hname
    · exact hd.no_nul (mem_of_mem_steps hname _ hmem)
    · rw [(List.mem_replicate.1 hname).2] at hmem
      revert hmem
      decide
  · have hb : b = ⟨""⟩ := by
      cases b
      cases hempty
      rfl
    have hnil : d.steps = [] := by
      rw [hb] at hsteps
      exact (List.append_eq_nil_iff.1 hsteps.symm).1
    have hrooted := isRooted_of_steps_eq_nil hnil hd.ne_empty
    rw [← h.rooted, hb] at hrooted
    cases hrooted

theorem size_behindDots_le (d : HostPath) (k : Nat) :
    (d.behindDots k).text.utf8ByteSize ≤ d.rebuilt.text.utf8ByteSize + k * 2 := by
  induction k with
  | zero => exact Nat.le_refl _
  | succ k ih =>
      have hdot : IsSegment "." := isSegment_of_mem_dots (k := 1) (by decide)
      have hstep := (d.behindDots k).size_child_le hdot
      have hsize : ("." : String).utf8ByteSize = 1 := rfl
      rw [behindDots, List.replicate_succ', List.foldl_append, List.foldl_cons, List.foldl_nil,
        ← behindDots]
      omega

/-! ## The root behind dots -/

theorem steps_slash : steps ⟨"/"⟩ = [] := by decide +kernel

theorem rebuilt_slash : rebuilt ⟨"/"⟩ = ⟨"/"⟩ := by
  rw [rebuilt, steps_slash]
  rfl

/-- The root of the disk, with so many dots behind it. -/
def rootDots (k : Nat) : HostPath := behindDots ⟨"/"⟩ k

theorem dotted_rootDots (k : Nat) : Dotted ⟨"/"⟩ (rootDots k) := dotted_behindDots _ k

theorem isRooted_rootDots (k : Nat) : (rootDots k).isRooted = true :=
  (dotted_rootDots k).rooted.trans rfl

theorem steps_rootDots (k : Nat) : (rootDots k).steps = List.replicate k "." := by
  rw [rootDots, steps_behindDots, steps_slash, List.nil_append]

theorem dots_not_mem_rootDots (k : Nat) : ".." ∉ (rootDots k).steps := by
  rw [steps_rootDots]
  exact fun h => absurd (List.eq_of_mem_replicate h) (by decide)

theorem size_rootDots_le (k : Nat) : (rootDots k).text.utf8ByteSize ≤ k * 2 + 1 := by
  have hslash : ("/" : String).utf8ByteSize = 1 := rfl
  have hsize := size_behindDots_le ⟨"/"⟩ k
  rw [rebuilt_slash, hslash, Nat.add_comm] at hsize
  exact hsize

theorem width_le_of_rootDots {k : Nat} {names : List String} (hrooted : p.isRooted = true)
    (hsteps : p.steps = (rootDots k).steps ++ names) :
    k * 2 + Text.width names ≤ p.text.utf8ByteSize := by
  have hwidth := width_steps_le hrooted
  rwa [hsteps, steps_rootDots, Text.width_dots] at hwidth

end HostPath

open HostPath (Dotted rootDots)

namespace FileSystem

variable {fs : FileSystem} {d b : HostPath}

theorem locate_of_steps_eq (fs : FileSystem) {names : List String}
    (hsteps : b.steps = d.steps ++ names) (hrooted : b.isRooted = d.isRooted)
    (hup : ".." ∉ names) : fs.locate b = fs.locate d ++ names.filter (· != ".") := by
  rw [locate, origin, hrooted, hsteps, List.foldl_append, Place.foldl_step_of_dots_not_mem hup]
  rfl

/-- Dots lead nowhere. -/
theorem locate_dotted (fs : FileSystem) (h : Dotted d b) : fs.locate b = fs.locate d := by
  obtain ⟨k, hsteps⟩ := h.steps
  have hfilter : (List.replicate k ".").filter (· != ".") = [] :=
    List.filter_eq_nil_iff.2 fun s hs => by simp [(List.mem_replicate.1 hs).2]
  rw [fs.locate_of_steps_eq hsteps h.rooted fun hmem => ?_, hfilter, List.append_nil]
  exact absurd (List.mem_replicate.1 hmem).2 (by decide)

theorem isDir_dotted (hfs : fs.Plain) (h : Dotted d b) (hdir : fs.isDir d = true)
    (hshort : b.text.utf8ByteSize < pathLimit) : fs.isDir b = true := by
  obtain ⟨hleads, hentry⟩ := (isDir_iff hfs).1 hdir
  have hplace := fs.locate_dotted h
  obtain ⟨k, hsteps⟩ := h.steps
  have horigin : fs.origin b = fs.origin d := by rw [origin, origin, h.rooted]
  refine (isDir_iff hfs).2 ⟨⟨h.usable hleads.usable hshort, ?_, ?_⟩, by rw [hplace, hentry]⟩
  · rw [horigin]
    exact hleads.origin_dir
  · rw [horigin, hsteps]
    exact hleads.walkable.append hentry (fs.walkable_dots _ k)

theorem locate_rootDots (fs : FileSystem) (k : Nat) : fs.locate (rootDots k) = [] := by
  rw [fs.locate_dotted (HostPath.dotted_rootDots k), locate, HostPath.steps_slash]
  rfl

theorem isDir_rootDots (hfs : fs.Plain) (hroot : fs.entryAt? [] = some .dir) {k : Nat}
    (hshort : k * 2 + 1 < pathLimit) : fs.isDir (rootDots k) = true := by
  have hplace : fs.locate ⟨"/"⟩ = [] := by
    rw [← fs.locate_dotted (HostPath.dotted_rootDots k), locate_rootDots]
  have horigin : fs.origin ⟨"/"⟩ = [] := rfl
  refine isDir_dotted hfs (HostPath.dotted_rootDots k) ((isDir_iff hfs).2 ⟨⟨?_, ?_, ?_⟩, ?_⟩)
    (Nat.lt_of_le_of_lt (HostPath.size_rootDots_le k) hshort)
  · exact ⟨by decide, by decide, by decide⟩
  · rw [horigin, hroot]
  · rw [horigin, HostPath.steps_slash]
    trivial
  · rw [hplace, hroot]

theorem short_of_isDir_child_rootDots (hfs : fs.Plain) {k : Nat} {name : String}
    (hname : IsSegment name) (h : fs.isDir ((rootDots k).child name) = true) :
    k * 2 + 2 < pathLimit := by
  have hshort := ((isDir_iff hfs).1 h).1.usable.short
  have hrooted : ((rootDots k).child name).isRooted = true := by
    rw [HostPath.isRooted_child _ hname, HostPath.isRooted_rootDots]
  have hwidth := HostPath.width_le_of_rootDots hrooted (HostPath.steps_child _ hname)
  have hbytes : 0 < name.utf8ByteSize := by
    rw [Nat.pos_iff_ne_zero, ne_eq, String.utf8ByteSize_eq_zero_iff]
    exact hname.ne_empty
  rw [Text.width_cons] at hwidth
  omega

end FileSystem

end PackageScript
