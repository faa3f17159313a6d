import PackageScript.Proofs.Command.DeletedMatches
import PackageScript.Proofs.Files.Sweeps

set_option autoImplicit false

/-! # Deletions of a literal path

A copy and a move look at the script path to tell a pattern from a literal path. A deletion leaves
this to the expansion, which is given the host path, and so a star in the root of a volume makes
a pattern of every path on that volume. What a deletion then removes is said by the matches that
are *struck*, those that are still there when their turn comes (`FileAction.Struck`): a place is
changed exactly if it is at or below one of them (`FileAction.changed_iff_struck`). So a literal
deletion stays on its own path exactly if no match is struck beside it, and it does so for every
volume without a star in its root.
-/

namespace PackageScript

/-! ## What deletions one after the other remove -/

namespace FileAction

open Setting (forEach)

variable {fs fs1 fs' : FileSystem} {p m : HostPath} {paths rest : List HostPath} {q : Place}

/-- **What one deletion removes**: what it is asked for and everything inside, if that exists, and
nothing otherwise. -/
theorem entryAt?_of_deleteTree (hfs : fs.Plain) (h : deleteTree p fs = .ok () fs') (q : Place) :
    (fs.exists? p = true → fs.locate p <+: q → fs'.entryAt? q = none)
      ∧ (¬ (fs.exists? p = true ∧ fs.locate p <+: q) → fs'.entryAt? q = fs.entryAt? q) := by
  obtain ⟨hprunes, hgone⟩ := (deleteTreeTo_ends pathLimit p hfs).of_ok h
  constructor
  · rintro hexists ⟨below, rfl⟩
    exact FileSystem.entryAt?_below_none (hgone hexists) below
  · intro hnot
    by_cases hexists : fs.exists? p = true
    · exact hprunes.entry_of_not_below fun hbelow => hnot ⟨hexists, hbelow⟩
    · -- nothing exists there, so the files are as they were
      rw [Bool.not_eq_true] at hexists
      rcases deleteTree_of_missing hfs hexists with hok | ⟨e, herror⟩
      · rw [h] at hok
        cases hok
        rfl
      · rw [h] at herror
        cases herror

/-- Of paths that are deleted one after the other, one is struck if something exists there when
its turn comes. -/
def Struck (fs : FileSystem) (paths : List HostPath) (m : HostPath) : Prop :=
  ∃ before after, paths = before ++ m :: after
    ∧ ((forEach deleteTree before).after fs).exists? m = true

/-- The first path is struck if it exists, the others as they are once it is deleted. -/
theorem struck_cons_iff (h : deleteTree p fs = .ok () fs1) :
    Struck fs (p :: rest) m ↔ m = p ∧ fs.exists? p = true ∨ Struck fs1 rest m := by
  constructor
  · rintro ⟨before, after, hsplit, hexists⟩
    cases before with
    | nil =>
        obtain ⟨rfl, -⟩ := List.cons.inj hsplit
        exact Or.inl ⟨rfl, hexists⟩
    | cons first more =>
        obtain ⟨rfl, hrest⟩ := List.cons.inj hsplit
        rw [forEach, after_bind_of_ok h] at hexists
        exact Or.inr ⟨more, after, hrest, hexists⟩
  · rintro (⟨rfl, hexists⟩ | ⟨before, after, rfl, hexists⟩)
    · exact ⟨[], rest, rfl, hexists⟩
    · refine ⟨p :: before, after, rfl, ?_⟩
      rw [forEach, after_bind_of_ok h]
      exact hexists

theorem Struck.mem (h : Struck fs paths m) : m ∈ paths := by
  obtain ⟨before, after, rfl, -⟩ := h
  simp

/-- Of a single path, it can only be that path, and it exists. -/
theorem Struck.of_singleton (h : Struck fs [p] m) : m = p ∧ fs.exists? p = true := by
  obtain ⟨before, after, hsplit, hexists⟩ := h
  obtain ⟨rfl, hsplit⟩ | ⟨more, rfl, hnil⟩ := List.append_eq_cons_iff.1 hsplit.symm
  · obtain ⟨rfl, -⟩ := List.cons.inj hsplit
    exact ⟨rfl, hexists⟩
  · simp at hnil

/-- **What deletions one after the other remove**: everything at or below a path that is struck,
and nothing else. -/
theorem entryAt?_of_forEach_deleteTree (hfs : fs.Plain)
    (h : forEach deleteTree paths fs = .ok () fs') (q : Place) :
    (∀ m, Struck fs paths m → fs.locate m <+: q → fs'.entryAt? q = none)
      ∧ ((∀ m, Struck fs paths m → ¬ fs.locate m <+: q) →
        fs'.entryAt? q = fs.entryAt? q) := by
  induction paths generalizing fs with
  | nil =>
      cases h
      refine ⟨fun m hm => ?_, fun _ => rfl⟩
      cases hm.mem
  | cons p rest ih =>
      obtain ⟨fs1, hfirst, hrest⟩ := forEach_cons_eq_ok h
      obtain ⟨hprunes, -⟩ := (deleteTreeTo_ends pathLimit p hfs).of_ok hfirst
      obtain ⟨hat, helse⟩ := entryAt?_of_deleteTree hfs hfirst q
      obtain ⟨hgone, hkept⟩ := ih hprunes.plain hrest
      simp only [hprunes.locate] at hgone hkept
      -- what was gone after the first deletion is so at the end: nothing is made
      have hstays : fs1.entryAt? q = none → fs'.entryAt? q = none := by
        intro hnone
        by_cases hbelow : ∃ m, Struck fs1 rest m ∧ fs.locate m <+: q
        · obtain ⟨m, hm, hbelow⟩ := hbelow
          exact hgone m hm hbelow
        · rw [hkept fun m hm hq => hbelow ⟨m, hm, hq⟩]
          exact hnone
      refine ⟨fun m hm hbelow => ?_, fun hnot => ?_⟩
      · rcases (struck_cons_iff hfirst).1 hm with ⟨rfl, hexists⟩ | hlater
        · exact hstays (hat hexists hbelow)
        · exact hgone m hlater hbelow
      · rw [hkept fun m hm => hnot m ((struck_cons_iff hfirst).2 (Or.inr hm))]
        exact helse fun ⟨hexists, hbelow⟩ =>
          hnot p ((struck_cons_iff hfirst).2 (Or.inl ⟨rfl, hexists⟩)) hbelow

/-- What is struck was there before the first deletion. -/
theorem Struck.there (hfs : fs.Plain) (h : Struck fs paths m)
    (hrun : forEach deleteTree paths fs = .ok () fs') : fs.entryAt? (fs.locate m) ≠ none := by
  induction paths generalizing fs with
  | nil => cases h.mem
  | cons p rest ih =>
      obtain ⟨fs1, hfirst, hrest⟩ := forEach_cons_eq_ok hrun
      obtain ⟨hprunes, -⟩ := (deleteTreeTo_ends pathLimit p hfs).of_ok hfirst
      rcases (struck_cons_iff hfirst).1 h with ⟨rfl, hexists⟩ | hlater
      · exact ((FileSystem.exists?_iff hfs).1 hexists).2.1
      · have hthere := ih hprunes.plain hlater hrest
        rw [hprunes.locate] at hthere
        intro hnone
        rcases hprunes.entry (fs.locate m) with hsame | ⟨-, hgone⟩
        · exact hthere (hsame.trans hnone)
        · exact hthere hgone

/-- **A place is changed exactly if something was there and it is at or below what is struck.** -/
theorem changed_iff_struck (hfs : fs.Plain) (hrun : forEach deleteTree paths fs = .ok () fs') :
    fs'.entryAt? q ≠ fs.entryAt? q
      ↔ fs.entryAt? q ≠ none ∧ ∃ m, Struck fs paths m ∧ fs.locate m <+: q := by
  obtain ⟨hgone, hkept⟩ := entryAt?_of_forEach_deleteTree hfs hrun q
  constructor
  · intro hchanged
    have hstruck : ∃ m, Struck fs paths m ∧ fs.locate m <+: q := by
      by_contra hnone
      exact hchanged (hkept fun m hm hbelow => hnone ⟨m, hm, hbelow⟩)
    obtain ⟨m, hm, hbelow⟩ := hstruck
    refine ⟨fun hnone => hchanged ?_, m, hm, hbelow⟩
    rw [hgone m hm hbelow, hnone]
  · rintro ⟨hthere, m, hm, hbelow⟩ hsame
    rw [hgone m hm hbelow] at hsame
    exact hthere hsame.symm

end FileAction

/-! ## Literal paths on a volume -/

theorem HostPath.isPattern_join_iff {base relative : HostPath} (h : relative.isRooted = false) :
    isPattern (base.join relative).text = true
      ↔ isPattern base.text = true ∨ isPattern relative.text = true := by
  have hslash : '*' ∉ "/".toList := by decide
  rw [isPattern_iff, isPattern_iff, isPattern_iff, HostPath.join, h, if_neg (by simp)]
  split
  · rw [String.toList_append, List.mem_append]
  · rw [String.toList_append, String.toList_append, List.mem_append, List.mem_append]
    simp only [hslash, or_false]

/-- What a volume makes of a text without a star has one exactly if its root has. -/
theorem Volume.isPattern_locate_iff_root (v : Volume) {rest : List Char} (h : '*' ∉ rest) :
    isPattern (v.locate rest).text = true ↔ isPattern v.root.text = true := by
  have hbelow : '*' ∉ rest.dropWhile (· == '/') :=
    fun hmem => h ((List.dropWhile_suffix _).subset hmem)
  rw [locate]
  split
  · rfl
  · have hplain : ¬ isPattern (String.ofList (rest.dropWhile (· == '/'))) = true := by
      rw [isPattern_iff, String.toList_ofList]
      exact hbelow
    rw [HostPath.isPattern_join_iff (isRooted_dropWhile_slash rest)]
    exact or_iff_left hplain

/-- A literal script path has a pattern for its host path exactly if there is a star in the root
of its volume. -/
theorem Config.isPattern_hostPath_iff_root {config : Config} {path : String}
    (hpath : isPattern path = false) :
    isPattern (config.hostPath path).text = true
      ↔ ∃ v, config.volumes.find? (fun u => Text.startsWith path u.mark) = some v
        ∧ isPattern v.root.text = true := by
  have hstar : '*' ∉ path.toList := by
    rw [← isPattern_iff, hpath]
    exact Bool.false_ne_true
  cases hfind : config.volumes.find? (fun u => Text.startsWith path u.mark) with
  | none =>
      rw [hostPath_of_find?_eq_none hfind, hpath]
      simp
  | some v =>
      obtain ⟨rest, hsplit, hhost⟩ := hostPath_of_find?_eq_some hfind
      rw [hsplit, List.mem_append, not_or] at hstar
      rw [hhost, v.isPattern_locate_iff_root hstar.2]
      simp

/-! ## The command -/

namespace Setting

open FileAction (Struck)

variable (s : Setting) (w : World) (raw : String)

/-- Of two file systems the second differs from the first only at what a path names and inside
it, if that exists, and not at all otherwise. -/
def OnlyAt (p : HostPath) (fs fs' : FileSystem) : Prop :=
  ∀ q, fs'.entryAt? q ≠ fs.entryAt? q → fs.exists? p = true ∧ fs.locate p <+: q

/-- **When a literal deletion touches only its own path.** In a tree without links, a deletion
whose script path has no star and that returns changes nothing but what its host path names and
what is inside exactly if every match that is struck is there. Its host path is taken for a pattern
exactly if there is a star in the root of its volume, so for every other volume the deletion stays
on its path. -/
theorem delete_only_at_iff (hfs : w.files.Plain) (hliteral : isPattern (scriptPath raw) = false)
    {w' : World} (hrun : s.delete raw w = .ok () w') :
    (OnlyAt (s.locate raw) w.files w'.files
        ↔ ∀ m, Struck w.files (w.files.expand (s.locate raw)).1 m →
          w.files.exists? (s.locate raw) = true
            ∧ w.files.locate (s.locate raw) <+: w.files.locate m)
      ∧ (isPattern (s.locate raw).text = true
        ↔ ∃ v, s.config.volumes.find? (fun u => Text.startsWith (scriptPath raw) u.mark) = some v
          ∧ isPattern v.root.text = true)
      ∧ (isPattern (s.locate raw).text = false → OnlyAt (s.locate raw) w.files w'.files) := by
  have hdeleted : forEach FileAction.deleteTree (w.files.expand (s.locate raw)).1 w.files
      = .ok () w'.files := s.forEach_of_delete_eq_ok w raw hrun
  have honly : OnlyAt (s.locate raw) w.files w'.files
      ↔ ∀ m, Struck w.files (w.files.expand (s.locate raw)).1 m →
        w.files.exists? (s.locate raw) = true
          ∧ w.files.locate (s.locate raw) <+: w.files.locate m := by
    constructor
    · intro honly m hm
      -- the place of what is struck is itself changed
      exact honly _ ((FileAction.changed_iff_struck hfs hdeleted).2
        ⟨hm.there hfs hdeleted, m, hm, List.prefix_rfl⟩)
    · intro hall q hq
      obtain ⟨-, m, hm, hbelow⟩ := (FileAction.changed_iff_struck hfs hdeleted).1 hq
      obtain ⟨hexists, hinside⟩ := hall m hm
      exact ⟨hexists, hinside.trans hbelow⟩
  refine ⟨honly, Config.isPattern_hostPath_iff_root hliteral, fun hplain => honly.2 ?_⟩
  intro m hm
  -- a plain host path stands for itself alone
  have hself : (w.files.expand (s.locate raw)).1 = [s.locate raw] := by
    rw [FileSystem.expand, FileSystem.expandWith, hplain, if_neg (by simp)]
  rw [hself] at hm
  obtain ⟨rfl, hexists⟩ := hm.of_singleton
  exact ⟨hexists, List.prefix_rfl⟩

/-- Two directories with a file of the same name. The name of one directory has a star, and as a
pattern it stands for both. -/
def starredCard : FileSystem :=
  ((((FileSystem.empty []).setDir ["s*"]).setFile ["s*", "x"] ⟨#[49]⟩).setDir ["sd"]).setFile
    ["sd", "x"] ⟨#[50]⟩

theorem starredCard_plain : starredCard.Plain := by
  have hfirst : ((FileSystem.empty []).setDir ([] ++ ["s*"])).Plain :=
    FileSystem.plain_empty.setDir rfl (by decide) rfl
  have hone : (((FileSystem.empty []).setDir ["s*"]).setFile (["s*"] ++ ["x"]) ⟨#[49]⟩).Plain :=
    hfirst.setFile rfl (by decide) (fun h => by cases h) _
  have hsecond : ((((FileSystem.empty []).setDir ["s*"]).setFile ["s*", "x"] ⟨#[49]⟩).setDir
      ([] ++ ["sd"])).Plain := hone.setDir rfl (by decide) rfl
  have htwo : (((((FileSystem.empty []).setDir ["s*"]).setFile ["s*", "x"] ⟨#[49]⟩).setDir
      ["sd"]).setFile (["sd"] ++ ["x"]) ⟨#[50]⟩).Plain :=
    hsecond.setFile rfl (by decide) (fun h => by cases h) _
  exact htwo

/-- On the card without a star in its path, the file of that name is deleted and nothing else. -/
theorem starredCard_delete_only_at :
    ∃ w', (withCardAt ⟨"/sd"⟩).delete "sdmc:/x" (.ofFiles starredCard) = .ok () w'
      ∧ OnlyAt ⟨"/sd/x"⟩ starredCard w'.files := by
  obtain ⟨w', hrun⟩ := Action.exists_eq_ok_of_isOk ((withCardAt ⟨"/sd"⟩).delete "sdmc:/x")
    (.ofFiles starredCard) (by decide +kernel)
  obtain ⟨-, -, hplain⟩ := delete_only_at_iff (withCardAt ⟨"/sd"⟩) (.ofFiles starredCard) "sdmc:/x"
    starredCard_plain (by decide +kernel) hrun
  have hhost : (withCardAt ⟨"/sd"⟩).locate "sdmc:/x" = ⟨"/sd/x"⟩ := by decide +kernel
  rw [hhost] at hplain
  exact ⟨w', hrun, hplain (by decide)⟩

/-- **A literal deletion does not always stay on its path.** On the card with a star in its path
it deletes the file of the other directory, too. -/
theorem delete_not_only_at :
    ¬ ∀ (s : Setting) (w w' : World) (raw : String), w.files.Plain →
      isPattern (scriptPath raw) = false → Guard.isDangerous (scriptPath raw) = false →
      s.delete raw w = .ok () w' → OnlyAt (s.locate raw) w.files w'.files := by
  intro hall
  obtain ⟨w', hrun⟩ := Action.exists_eq_ok_of_isOk ((withCardAt ⟨"/s*"⟩).delete "sdmc:/x")
    (.ofFiles starredCard) (by decide +kernel)
  have hafter : (((withCardAt ⟨"/s*"⟩).delete "sdmc:/x").filesAfter
      (.ofFiles starredCard)).node? ["sd", "x"] = none :=
    Option.isNone_iff_eq_none.1 (by decide +kernel)
  rw [Action.filesAfter_of_ok hrun] at hafter
  have hgone : w'.files.entryAt? ["sd", "x"] = none := by
    rw [FileSystem.entryAt?_eq_map]
    exact congrArg (Option.map Node.entry) hafter
  have honly := hall _ (.ofFiles starredCard) w' "sdmc:/x" starredCard_plain (by decide +kernel)
    (by decide +kernel) hrun
  obtain ⟨-, hinside⟩ := honly ["sd", "x"] fun hsame => by
    have hthere : starredCard.entryAt? ["sd", "x"] = some (.file ⟨#[50]⟩) := rfl
    cases hgone.symm.trans (hsame.trans hthere)
  have hplace : starredCard.locate ((withCardAt ⟨"/s*"⟩).locate "sdmc:/x") = ["s*", "x"] := by
    decide +kernel
  have hbeside : ¬ ["s*", "x"] <+: ["sd", "x"] := by decide
  exact hbeside (hplace ▸ hinside)

end Setting

end PackageScript
