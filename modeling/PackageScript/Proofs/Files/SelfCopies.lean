import PackageScript.Proofs.Files.TreeCopies
import PackageScript.Proofs.Files.Growth

set_option autoImplicit false

/-! # Copying a directory into itself

The copy of a directory below itself would never end: the place that is made for it is met again
among what is to be copied. It is refused, and this refusal is the one failure of a copy between
paths that can be used which says that an argument is not acceptable
(`FileError.isInvalidInput`). What is compared for it is how both paths are spelled. A place inside
the directory under a spelling that does not show it is taken for a place elsewhere. The copy goes
on then, since in the directory it comes upon the way to the place that it has made, goes down that
way on both sides and stands before a place inside a directory again
(`FileAction.copyTreeTo_inside`). It never returns; it fails when the paths have become too long,
and all that it has made until then stays.
-/

namespace PackageScript

/-- **An argument is not acceptable**, whatever there is on the disk. -/
def FileError.isInvalidInput : FileError → Bool
  | .invalidArgument | .nulInPath | .intoItself _ _ => true
  | _ => false

/-! ## How both paths are spelled -/

namespace HostPath

variable {src dst p : HostPath} {name : String}

theorem isStartOf_iff : src.isStartOf dst = true ↔ src.parts <+: dst.parts :=
  List.isPrefixOf_iff_prefix

theorem isStartOf_of_same (h : src.same dst = true) : src.isStartOf dst = true := by
  have hparts : src.parts = dst.parts := beq_iff_eq.1 h
  exact isStartOf_iff.2 (hparts ▸ List.prefix_rfl)

/-- **What is not refused is not refused one level down either.** -/
theorem isStartOf_child_eq_false (hname : IsPart name) (h : src.isStartOf dst = false) :
    (src.child name).isStartOf (dst.child name) = false := by
  rw [Bool.eq_false_iff] at h ⊢
  refine fun hchild => h ?_
  rw [isStartOf_iff] at hchild ⊢
  rw [src.parts_child hname, dst.parts_child hname, List.prefix_concat_iff] at hchild
  rcases hchild with heq | hp
  · exact List.append_inj_left' heq rfl ▸ List.prefix_rfl
  · exact (List.prefix_append _ _).trans hp

theorem no_nul_child (h : '\x00' ∉ p.text.toList) (hname : IsName name) :
    '\x00' ∉ (p.child name).text.toList := by
  rw [child, p.join_eq (isRooted_ofSegment hname.toIsSegment), String.toList_append,
    String.toList_append]
  intro hnul
  rcases List.mem_append.1 hnul with hfront | hin
  · rcases List.mem_append.1 hfront with hin | hgap
    · exact h hin
    · rw [gap] at hgap
      split at hgap
      · cases hgap
      · exact absurd hgap (by decide)
  · exact hname.no_nul hin

end HostPath

/-! ## Which failures there are -/

namespace FileSystem

variable {fs : FileSystem} {p : HostPath}

/-- A walk fails for what it meets, not for the names it is to follow. -/
theorem walkWith_acceptable
    {jump : Stand fs.root → HostPath → List String → Bool → Except FileError Spot}
    (hjump : ∀ here target rest slash e, jump here target rest slash = .error e →
      e.isInvalidInput = false)
    {follow slash : Bool} {here : Stand fs.root} {names : List String} {e : FileError}
    (h : fs.walkWith jump follow slash here names = .error e) : e.isInvalidInput = false := by
  induction names generalizing here with
  | nil => cases h
  | cons name rest ih =>
      rw [walkWith] at h
      split at h
      · exact ih h
      split at h
      · exact ih h
      split at h
      · cases h
        rfl
      split at h
      · split at h
        · exact ih h
        · split at h
          · exact hjump _ _ _ _ _ h
          · cases h
        · split at h
          · cases h
          · cases h
            rfl
      · split at h
        · cases h
        · cases h
          rfl

theorem walk_acceptable {follow slash : Bool} {links : Nat} {here : Stand fs.root}
    {names : List String} {e : FileError} (h : fs.walk follow links slash here names = .error e) :
    e.isInvalidInput = false := by
  induction links generalizing slash here names e with
  | zero =>
      refine walkWith_acceptable (fun _ _ _ _ _ he => ?_) h
      cases he
      rfl
  | succ links ih => exact walkWith_acceptable (fun _ _ _ _ _ he => ih he) h

/-- **A path without the character NUL is acceptable.** -/
theorem resolve_acceptable (hp : '\x00' ∉ p.text.toList) {mode : Follow} {e : FileError}
    (h : fs.resolve mode p = .error e) : e.isInvalidInput = false := by
  unfold resolve at h
  rw [if_neg (by simpa using hp)] at h
  split at h
  · cases h
    rfl
  split at h
  · cases h
    rfl
  split at h
  · cases h
    rfl
  · exact walk_acceptable h

theorem stat_acceptable (hp : '\x00' ∉ p.text.toList) {e : FileError} (h : fs.stat p = .error e) :
    e.isInvalidInput = false := by
  rw [stat, find] at h
  split at h
  · next hresolve =>
      cases h
      exact resolve_acceptable hp hresolve
  split at h
  · cases h
    rfl
  · cases h
  · split at h
    · cases h
      rfl
    · cases h

theorem readDir_acceptable (hp : '\x00' ∉ p.text.toList) {e : FileError}
    (h : fs.readDir p = .error e) : e.isInvalidInput = false := by
  rw [readDir] at h
  split at h
  · next hstat =>
      cases h
      exact stat_acceptable hp hstat
  · cases h
  · cases h
    rfl

end FileSystem

namespace FileAction

open FileSystem (Overlay Grows)

variable {α β : Type} {fs fs' : FileSystem} {src dst p : HostPath}

/-- **No failure of the action is about its arguments.** -/
def Acceptable (act : FileAction α) : Prop :=
  ∀ fs, Ends act fs (fun _ _ => True) fun e _ => e.isInvalidInput = false

namespace Acceptable

variable {act : FileAction α}

theorem pure (a : α) : Acceptable (Pure.pure a : FileAction α) := fun _ => trivial

theorem bind {next : α → FileAction β} (h : Acceptable act) (hnext : ∀ a, Acceptable (next a)) :
    Acceptable (act >>= next) := fun fs =>
  Ends.bind ((h fs).mono (fun a fs' _ => hnext a fs') fun _ _ he => he)

theorem ask {question : FileSystem → Except FileError α}
    (h : ∀ fs e, question fs = .error e → e.isInvalidInput = false) :
    Acceptable (FileAction.ask question) := fun fs =>
  ends_ask (fun _ _ => trivial) fun e he => h fs e he

theorem ends {ok : α → FileSystem → Prop} {err : FileError → FileSystem → Prop}
    (h : Acceptable act) (hends : Ends act fs ok err) :
    Ends act fs ok fun e _ => e.isInvalidInput = false := by
  cases hrun : act fs with
  | ok a fs' => exact ends_of_ok hrun (hends.of_ok hrun)
  | error e fs' => exact ends_of_error hrun ((h fs).of_error hrun)

end Acceptable

theorem makeDir_acceptable (hp : '\x00' ∉ p.text.toList) : Acceptable (makeDir p) := by
  intro fs
  rw [Ends, makeDir]
  cases hresolve : fs.resolve .never p with
  | error e => exact FileSystem.resolve_acceptable hp hresolve
  | ok spot =>
      dsimp only
      cases fs.node? spot.place with
      | none => trivial
      | some node => rfl

theorem makeOrFind_acceptable (hp : '\x00' ∉ p.text.toList) : Acceptable (makeOrFind p) := by
  intro fs
  have hmake := makeDir_acceptable hp fs
  rw [Ends] at hmake ⊢
  rw [makeOrFind]
  cases hrun : makeDir p fs with
  | ok _ fs' => trivial
  | error e fs' =>
      rw [hrun] at hmake
      dsimp only
      by_cases hdir : fs'.isDir p = true
      · rw [if_pos hdir]
        trivial
      · rw [if_neg hdir]
        exact hmake

theorem makeDirs_acceptable {last : String} {above : List String}
    (hparts : p.parts = above.reverse ++ [last]) (hp : '\x00' ∉ p.text.toList) :
    Acceptable (makeDirs p above) := by
  induction above generalizing p last with
  | nil => exact makeOrFind_acceptable hp
  | cons part above ih =>
      have hfront : (part :: above).reverse <+: p.parts := by
        rw [hparts]
        exact List.prefix_append _ _
      have hparent : (HostPath.ofParts (part :: above).reverse).parts
          = above.reverse ++ [part] := by
        rw [HostPath.parts_ofParts hfront, List.reverse_cons]
      have habove := ih hparent (FileSystem.no_nul_ofParts hfront hp)
      exact fun fs => makeDirs_cons_ends (makeOrFind_acceptable hp fs)
        ((habove fs).mono (fun _ fs' _ => makeOrFind_acceptable hp fs') fun _ _ he => he)

theorem createDirAll_acceptable (hp : '\x00' ∉ p.text.toList) : Acceptable (createDirAll p) := by
  rw [createDirAll]
  split
  · exact .pure ()
  · next last above hparts =>
      have hparts' : p.parts = above.reverse ++ [last] := by
        rw [← List.reverse_cons, ← hparts, List.reverse_reverse]
      exact makeDirs_acceptable hparts' hp

theorem ensureParent_acceptable (hp : '\x00' ∉ p.text.toList) : Acceptable (ensureParent p) := by
  rw [ensureParent]
  split
  · next parent hparent =>
      obtain ⟨ps, last, hparts, rfl⟩ := parent?_eq_some hparent
      exact createDirAll_acceptable
        (FileSystem.no_nul_ofParts (by rw [hparts]; exact List.prefix_append _ _) hp)
  · exact .pure ()

theorem removeFile_acceptable (hp : '\x00' ∉ p.text.toList) : Acceptable (removeFile p) := by
  intro fs
  rw [Ends, removeFile]
  cases hresolve : fs.resolve .never p with
  | error e => exact FileSystem.resolve_acceptable hp hresolve
  | ok spot =>
      dsimp only
      cases fs.node? spot.place with
      | none => rfl
      | some node =>
          cases node with
          | dir es => rfl
          | _ => cases p.endsWithSlash <;> trivial

theorem clearFile_acceptable (hp : '\x00' ∉ p.text.toList) : Acceptable (clearFile p) := by
  intro fs
  by_cases hthere : fs.isNonDir p = true
  · have hremove := removeFile_acceptable hp fs
    rwa [Ends, clearFile, if_pos hthere]
  · rw [Ends, clearFile, if_neg hthere]
    trivial

theorem createFile_acceptable (hp : '\x00' ∉ p.text.toList) : Acceptable (createFile p) := by
  intro fs
  rw [Ends, createFile]
  cases hplace : writePlace p fs with
  | ok place => trivial
  | error e =>
      show e.isInvalidInput = false
      rw [writePlace] at hplace
      split at hplace
      · next hresolve =>
          cases hplace
          exact FileSystem.resolve_acceptable hp hresolve
      split at hplace
      · cases hplace
        rfl
      split at hplace
      · next hresolve =>
          cases hplace
          exact FileSystem.resolve_acceptable hp hresolve
      split at hplace
      · cases hplace
        rfl
      · cases hplace

theorem copyFile_acceptable (hsrc : '\x00' ∉ src.text.toList) (hdst : '\x00' ∉ dst.text.toList) :
    Acceptable (copyFile src dst) := by
  rw [copyFile]
  split
  · refine .ask fun fs e he => ?_
    rw [sizeOf] at he
    split at he
    · next hstat =>
        cases he
        exact FileSystem.stat_acceptable hsrc hstat
    · cases he
    · cases he
  refine .bind (.ask fun fs e he => FileSystem.stat_acceptable hsrc he) fun found => ?_
  refine .bind (ensureParent_acceptable hdst) fun _ => ?_
  refine .bind (clearFile_acceptable hdst) fun _ => ?_
  refine .bind (createFile_acceptable hdst) fun place => ?_
  split
  · exact fun _ => trivial
  · exact fun _ => rfl

/-! ## A copy that is not refused -/

/-- **Nothing in the paths themselves is against a copy.** -/
structure Admitted (src dst : HostPath) : Prop where
  src_no_nul : '\x00' ∉ src.text.toList
  dst_no_nul : '\x00' ∉ dst.text.toList
  not_start : src.isStartOf dst = false

theorem Admitted.child {name : String} (h : Admitted src dst) (hname : IsName name) :
    Admitted (src.child name) (dst.child name) :=
  ⟨HostPath.no_nul_child h.src_no_nul hname, HostPath.no_nul_child h.dst_no_nul hname,
    HostPath.isStartOf_child_eq_false hname.toIsPart h.not_start⟩

theorem Admitted.not_same (h : Admitted src dst) : src.same dst = false := by
  refine Bool.eq_false_iff.2 fun hsame => ?_
  have hstart := HostPath.isStartOf_of_same hsame
  rw [h.not_start] at hstart
  cases hstart

/-- Copies of the entries are admitted like the copy of their directory. -/
theorem copyEntries_admitted {copyDir : HostPath → HostPath → FileAction Unit}
    (hcopyDir : ∀ (fs : FileSystem) (src dst : HostPath), fs.Plain → Admitted src dst →
      Ends (copyDir src dst) fs (fun _ fs' => fs'.Plain) fun e _ => e.isInvalidInput = false)
    (hpaths : Admitted src dst) (entries : List (String × Entry)) (hfs : fs.Plain)
    (hnames : ∀ e ∈ entries, IsName e.1) :
    Ends (copyEntries copyDir src dst entries) fs (fun _ fs' => fs'.Plain)
      fun e _ => e.isInvalidInput = false := by
  induction entries generalizing fs with
  | nil => exact hfs
  | cons entry rest ih =>
      obtain ⟨name, e⟩ := entry
      have hchild := hpaths.child (hnames (name, e) List.mem_cons_self)
      have hrest : ∀ fs1 : FileSystem, fs1.Plain → _ := fun fs1 h1 =>
        ih h1 fun e he => hnames e (List.mem_cons_of_mem _ he)
      have hfile := (copyFile_acceptable hchild.src_no_nul hchild.dst_no_nul).ends
        (copyFile_ends hfs (src.child name) (dst.child name))
      cases e with
      | dir =>
          exact Ends.bind ((hcopyDir fs _ _ hfs hchild).mono (fun _ fs1 h => hrest fs1 h)
            fun _ _ h => h)
      | file b => exact Ends.bind (hfile.mono (fun _ fs1 h => hrest fs1 h.1.plain) fun _ _ h => h)
      | link t => exact Ends.bind (hfile.mono (fun _ fs1 h => hrest fs1 h.1.plain) fun _ _ h => h)

/-- **A copy that is not refused at once is not refused later**, at any depth. -/
theorem copyTreeTo_admitted (depth : Nat) (hfs : fs.Plain) (hpaths : Admitted src dst) :
    Ends (copyTreeTo depth src dst) fs (fun _ fs' => fs'.Plain)
      fun e _ => e.isInvalidInput = false := by
  induction depth generalizing fs src dst with
  | zero => exact rfl
  | succ depth ih =>
      rw [copyTreeTo]
      dsimp only
      rw [if_neg (by simp [hpaths.not_same]), if_neg (by simp [hpaths.not_start])]
      have hmake := (createDirAll_acceptable hpaths.dst_no_nul).ends (createDirAll_ends hfs dst)
      refine Ends.bind (hmake.mono (fun _ fs1 h1 => ?_) fun _ _ he => he)
      refine Ends.bind (ends_ask (fun entries hlist => ?_) fun e he =>
        FileSystem.readDir_acceptable hpaths.src_no_nul he)
      exact copyEntries_admitted (fun fs src dst hfs h => ih hfs h) hpaths entries h1.1.plain
        fun e he => FileSystem.isName_of_mem_readDir h1.1.plain hlist he

theorem isInvalidInput_eq_false_of_copyTree {e : FileError} (hfs : fs.Plain)
    (hpaths : Admitted src dst) (h : copyTree src dst fs = .error e fs') :
    e.isInvalidInput = false :=
  (copyTreeTo_admitted pathLimit hfs hpaths).of_error h

/-! ## A copy below its own source -/

/-- Where an entry is copied, those before it have been copied, and those behind it are then. -/
theorem exists_entryCopied {copyDir : HostPath → HostPath → FileAction Unit} {name : String}
    {e : Entry} {before after : List (String × Entry)}
    (h : copyEntries copyDir src dst (before ++ (name, e) :: after) fs = .ok () fs') :
    ∃ fs1 fs2, copyEntries copyDir src dst before fs = .ok () fs1
      ∧ EntryCopied copyDir (src.child name) (dst.child name) e fs1 fs2
      ∧ copyEntries copyDir src dst after fs2 = .ok () fs' := by
  induction before generalizing fs with
  | nil =>
      obtain ⟨fs1, hcopied, hrest⟩ := copyEntries_cons_eq_ok_iff.1 h
      exact ⟨fs, fs1, rfl, hcopied, hrest⟩
  | cons first rest ih =>
      obtain ⟨fs1, hcopied, hrest⟩ := copyEntries_cons_eq_ok_iff.1 h
      obtain ⟨fs2, fs3, hfront, hentry, hback⟩ := ih hrest
      exact ⟨fs2, fs3, copyEntries_cons_eq_ok_iff.2 ⟨fs1, hcopied, hfront⟩, hentry, hback⟩

theorem same_eq_false_of_inside {below : Place} (hbelow : below ≠ [])
    (hinside : fs.locate dst = fs.locate src ++ below) : src.same dst = false :=
  fs.same_eq_false_of_ne fun heq => by
    rw [hinside] at heq
    exact hbelow (List.append_right_eq_self.1 heq.symm)

/-- **The copy of a directory to a place inside it does not return.** The way to that place is
among what is copied, so that the copy comes to a directory on that way, and copies it to a place
inside it again. -/
theorem copyTreeTo_inside (depth : Nat) (hfs : fs.Plain) (hdst : dst.text ≠ "") {below : Place}
    (hbelow : below ≠ []) (hinside : fs.locate dst = fs.locate src ++ below) :
    copyTreeTo depth src dst fs ≠ .ok () fs' := by
  induction depth generalizing fs src dst below fs' with
  | zero => exact fun h => by cases h
  | succ depth ih =>
      intro h
      obtain ⟨-, fs1, entries, hmake, hlist, hcopy⟩ :=
        (copyTreeTo_succ_eq_ok_iff (same_eq_false_of_inside hbelow hinside)).1 h
      have hmade := createDirAll_makesWay hfs hdst hmake
      obtain ⟨name, rest, rfl⟩ := List.exists_cons_of_ne_nil hbelow
      have hplace : fs1.locate dst = fs1.locate src ++ name :: rest := by
        rw [FileSystem.locate_congr hmade.home, FileSystem.locate_congr hmade.home, hinside]
      -- the first name on the way to the new place is that of a directory that is listed
      have hway : fs1.entryAt? (fs1.locate src ++ [name]) = some .dir := by
        refine FileSystem.dir_of_prefix_dir ((FileSystem.isDir_iff hmade.plain).1 hmade.isDir).2 ?_
        rw [hplace, List.prefix_append_right_inj, List.cons_prefix_cons]
        exact ⟨rfl, List.nil_prefix⟩
      have hmem := (FileSystem.mem_readDir hmade.plain hlist).2 hway
      have hnames : ∀ e ∈ entries, IsName e.1 := fun e he =>
        FileSystem.isName_of_mem_readDir hmade.plain hlist he
      obtain ⟨before, after, rfl⟩ := List.append_of_mem hmem
      obtain ⟨fs2, fs3, hfront, hentry, -⟩ := exists_entryCopied hcopy
      have hover := (copyEntries_below (fun fs src dst hfs => copyTreeTo_below depth hfs src dst)
        src dst before hmade.plain fun e he => hnames e (by simp [he])).of_ok hfront
      have hname : IsPart name := (hnames (name, .dir) (by simp)).toIsPart
      have hchildren : fs2.locate (dst.child name)
          = fs2.locate (src.child name) ++ (rest ++ [name]) := by
        rw [fs2.locate_child dst hname, fs2.locate_child src hname, hover.locate, hover.locate,
          hplace]
        simp
      exact ih hover.plain (dst.text_child_ne_empty hname.toIsSegment) (by simp) hchildren hentry

/-- **The copy of a directory to a place inside it fails, and is refused exactly if the spelling of
both paths shows it.** Refused, it has changed nothing. Otherwise it fails for another reason, which
is met on the way down into the copies that it makes of itself. -/
theorem copyTree_into_itself (hfs : fs.Plain) (hsrc : fs.isDir src = true)
    (hdst : FileSystem.Usable dst)
    (hinside : ∃ below, below ≠ [] ∧ fs.locate dst = fs.locate src ++ below) :
    ∃ e fs', copyTree src dst fs = .error e fs'
      ∧ (e.isInvalidInput = true ↔ src.isStartOf dst = true)
      ∧ (src.isStartOf dst = true → e = .intoItself src dst ∧ fs' = fs) := by
  obtain ⟨below, hbelow, hinside⟩ := hinside
  have hleads := ((FileSystem.isDir_iff hfs).1 hsrc).1
  by_cases hstart : src.isStartOf dst = true
  · refine ⟨.intoItself src dst, fs, ?_, iff_of_true rfl hstart, fun _ => ⟨rfl, rfl⟩⟩
    rw [copyTree_refused (same_eq_false_of_inside hbelow hinside) hstart]
    rfl
  · cases hrun : copyTree src dst fs with
    | ok _ fs' => exact absurd hrun (copyTreeTo_inside pathLimit hfs hdst.ne_empty hbelow hinside)
    | error e fs' =>
        have hpaths : Admitted src dst :=
          ⟨hleads.usable.no_nul, hdst.no_nul, Bool.eq_false_iff.2 hstart⟩
        have hcause := isInvalidInput_eq_false_of_copyTree hfs hpaths hrun
        exact ⟨e, fs', rfl, by simp [hcause, hstart], fun h => absurd h hstart⟩

/-- A directory is copied below itself. Spelled as what it is, the new place is refused. Spelled
around the root it is not. -/
theorem folder_into_itself :
    copyTree ⟨"/d"⟩ ⟨"/d/n"⟩ folder = .error (.intoItself ⟨"/d"⟩ ⟨"/d/n"⟩) folder
      ∧ ∃ e fs', copyTree ⟨"/d"⟩ ⟨"/../d/n"⟩ folder = .error e fs' ∧ e.isInvalidInput = false := by
  have hdir : folder.isDir ⟨"/d"⟩ = true := by decide +kernel
  constructor
  · have hdst : FileSystem.Usable ⟨"/d/n"⟩ := ⟨by decide, by decide, by decide⟩
    obtain ⟨e, fs', hrun, -, hrefused⟩ :=
      copyTree_into_itself folder_plain hdir hdst ⟨["n"], by decide, by decide +kernel⟩
    obtain ⟨rfl, rfl⟩ := hrefused (by decide +kernel)
    exact hrun
  · have hdst : FileSystem.Usable ⟨"/../d/n"⟩ := ⟨by decide, by decide, by decide⟩
    obtain ⟨e, fs', hrun, hiff, -⟩ :=
      copyTree_into_itself folder_plain hdir hdst ⟨["n"], by decide, by decide +kernel⟩
    refine ⟨e, fs', hrun, Bool.eq_false_iff.2 fun h => ?_⟩
    exact absurd (hiff.1 h) (by decide +kernel)

/-- **A place inside the directory is not always recognized**: that a path leads there does not make
the copy a refused one. -/
theorem copyTree_into_itself_around_root :
    ¬ ∀ (fs : FileSystem) (src dst : HostPath), fs.Plain → fs.isDir src = true → fs.Leads dst →
      (∃ below, below ≠ [] ∧ fs.locate dst = fs.locate src ++ below) →
      ∃ e, copyTree src dst fs = .error e fs ∧ e.isInvalidInput = true := by
  intro hall
  have hway : folder.resolve .always ⟨"/../d/n"⟩ = .ok ⟨["d", "n"], false⟩ := by decide +kernel
  obtain ⟨e, hrun, hinvalid⟩ := hall folder ⟨"/d"⟩ ⟨"/../d/n"⟩ folder_plain (by decide +kernel)
    ((FileSystem.resolve_eq_ok_iff folder_plain).1 hway).1 ⟨["n"], by decide, by decide +kernel⟩
  have hpaths : Admitted ⟨"/d"⟩ ⟨"/../d/n"⟩ := ⟨by decide, by decide, by decide +kernel⟩
  rw [isInvalidInput_eq_false_of_copyTree folder_plain hpaths hrun] at hinvalid
  cases hinvalid

end FileAction

end PackageScript
