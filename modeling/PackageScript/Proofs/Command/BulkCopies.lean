import PackageScript.Proofs.Command.DeletedMatches
import PackageScript.Proofs.Files.Arrivals
import PackageScript.Proofs.Files.Relocation

set_option autoImplicit false

/-! # Copying all matches into one directory

The matches of a pattern are copied one after the other, each under its own name into one directory,
and the first copy that fails ends the command. If their names differ, the copies do not meet: each
changes nothing but what is at or below its own name. So a match whose copy would return if it were
the only one is copied all the same when the command comes to it, provided that the copies before
have left it as it was (`FileAction.copyInto_unhindered`). It stays where it was copied to, whatever
becomes of the matches behind it (`Setting.copy_covers_match`).
-/

namespace PackageScript

theorem Place.not_prefix_of_sibling {dir q : Place} {name other : String} (hne : other ≠ name)
    (h : dir ++ [name] <+: q) : ¬ dir ++ [other] <+: q := by
  intro hother
  have hsame : dir ++ [other] = dir ++ [name] := by
    rcases List.prefix_or_prefix_of_prefix hother h with hp | hp
    · exact hp.eq_of_length (by simp)
    · exact (hp.eq_of_length (by simp)).symm
  rw [List.append_right_inj, List.singleton_inj] at hsame
  exact hne hsame

namespace FileAction

open Setting (forEach)
open FileSystem (Overlay Grows Within Alike)

variable {fs fs' now ready alone : FileSystem} {target p m : HostPath} {name : String}
variable {paths before after : List HostPath}

/-- Copies a match under its own name into a directory. -/
def copyInto (target p : HostPath) : FileAction Unit := copyEntry p (target.into p)

theorem copyInto_eq (target : HostPath) (h : p.fileName? = some name) :
    copyInto target p = copyEntry p (target.child name) := by
  rw [copyInto, HostPath.into_eq_child h]

theorem locate_into (fs : FileSystem) (target : HostPath) (h : p.fileName? = some name) :
    fs.locate (target.into p) = fs.locate target ++ [name] := by
  rw [HostPath.into_eq_child h, fs.locate_child target (HostPath.isPart_of_fileName? h)]

/-! ## What the copies change -/

/-- **However the copies end**, they have written at or below the names of the matches. -/
theorem after_forEach_copyInto (hfs : fs.Plain) (target : HostPath) (paths : List HostPath) :
    Overlay (fun q => ∃ p ∈ paths, fs.locate (target.into p) <+: q) fs
      ((forEach (copyInto target) paths).after fs) := by
  induction paths generalizing fs with
  | nil => exact .refl hfs
  | cons p rest ih =>
      have hends := copyEntry_below hfs p (target.into p)
      have hfirst : ∀ q, fs.locate (target.into p) <+: q →
          ∃ p' ∈ p :: rest, fs.locate (target.into p') <+: q := fun q hq =>
        ⟨p, List.mem_cons_self, hq⟩
      rw [forEach]
      cases hrun : copyInto target p fs with
      | error e fs1 =>
          rw [after_bind_of_error hrun]
          exact (hends.of_error hrun).mono hfirst
      | ok a fs1 =>
          have hover := hends.of_ok hrun
          rw [after_bind_of_ok hrun]
          refine (hover.mono hfirst).trans ((ih hover.plain).mono ?_)
          rintro q ⟨p', hp', hq⟩
          rw [hover.locate] at hq
          exact ⟨p', List.mem_cons_of_mem _ hp', hq⟩

theorem entry_after_copies (hfs : fs.Plain) {q : Place} {e : Entry}
    (hout : ∀ p ∈ paths, ¬ fs.locate (target.into p) <+: q) (he : fs.entryAt? q = some e) :
    ((forEach (copyInto target) paths).after fs).entryAt? q = some e := by
  have hover := after_forEach_copyInto hfs target paths
  rcases hover.rest q fun ⟨p, hp, hq⟩ => hout p hp hq with hsame | ⟨hnone, -⟩
  · rw [hsame, he]
  · rw [hnone] at he
    cases he

/-- Copies that all return can be started behind the parents of their places. -/
theorem forEach_copyInto_behind_parents (hfs : fs.Plain) (hname : IsPart name)
    (hnames : ∀ p ∈ paths, p.fileName? ≠ none) (hne : paths ≠ [])
    (hparent : ensureParent (target.child name) fs = .ok () ready)
    (h : forEach (copyInto target) paths fs = .ok () fs') :
    forEach (copyInto target) paths ready = .ok () fs' := by
  cases paths with
  | nil => exact absurd rfl hne
  | cons p rest =>
      obtain ⟨fs1, hcopy, hrest⟩ := forEach_cons_eq_ok h
      obtain ⟨other, hother⟩ := Option.ne_none_iff_exists'.1 (hnames p List.mem_cons_self)
      have hpart := HostPath.isPart_of_fileName? hother
      rw [copyInto_eq target hother] at hcopy
      obtain ⟨ready', hparent', hcopy'⟩ := copyEntry_behind_parents hfs hpart hcopy
      -- the parents are the same for every name
      rw [ensureParent_child target hpart, ← ensureParent_child target hname, hparent] at hparent'
      cases hparent'
      rw [← copyInto_eq target hother] at hcopy'
      exact bind_eq_ok_iff.2 ⟨(), fs1, hcopy', hrest⟩

/-- **Copies that all return change nothing beside the names of the matches**, once the parents
of these are there. -/
theorem forEach_copyInto_within (hfs : fs.Plain) (hname : IsPart name)
    (hready : ensureParent (target.child name) fs = .ok () fs)
    (hnames : ∀ p ∈ paths, p.fileName? ≠ none)
    (h : forEach (copyInto target) paths fs = .ok () fs') :
    Within (fun q => ∃ p ∈ paths, fs.locate (target.into p) <+: q) fs fs' := by
  induction paths generalizing fs with
  | nil =>
      cases h
      exact .refl hfs
  | cons p rest ih =>
      obtain ⟨fs1, hcopy, hrest⟩ := forEach_cons_eq_ok h
      obtain ⟨other, hother⟩ := Option.ne_none_iff_exists'.1 (hnames p List.mem_cons_self)
      have hpart := HostPath.isPart_of_fileName? hother
      have hready' : ensureParent (target.child other) fs = .ok () fs := by
        rw [ensureParent_child target hpart, ← ensureParent_child target hname, hready]
      rw [copyInto_eq target hother] at hcopy
      have hwithin := (copyEntry_repeatable (Z := fun _ => True) hfs hpart hready'
        (fun _ => trivial) (fun _ => trivial) hcopy).within
      have hgo := ih hwithin.overlay.plain (ensureParent_again hfs hready hwithin.overlay)
        (fun p' hp' => hnames p' (List.mem_cons_of_mem _ hp')) hrest
      rw [← HostPath.into_eq_child hother] at hwithin
      refine (hwithin.mono fun q hq => ⟨p, List.mem_cons_self, hq⟩).trans (hgo.mono ?_)
      rintro q ⟨p', hp', hq⟩
      rw [hwithin.overlay.locate] at hq
      exact ⟨p', List.mem_cons_of_mem _ hp', hq⟩

/-- The copies that are made before a match, seen from behind the parents of its place. -/
theorem exists_behind_parents (hfs : fs.Plain) (hname : m.fileName? = some name)
    (hnames : ∀ p ∈ before, p.fileName? ≠ none) (hne : before ≠ [])
    (halone : copyInto target m fs = .ok () alone)
    (hreached : forEach (copyInto target) before fs = .ok () now) :
    ∃ ready, ensureParent (target.child name) fs = .ok () ready
      ∧ ensureParent (target.child name) ready = .ok () ready
      ∧ copyEntry m (target.child name) ready = .ok () alone
      ∧ Within (fun q => ∃ p ∈ before, ready.locate (target.into p) <+: q) ready now := by
  have hpart := HostPath.isPart_of_fileName? hname
  rw [copyInto_eq target hname] at halone
  obtain ⟨ready, hparent, hcopy⟩ := copyEntry_behind_parents hfs hpart halone
  have hgrows := (ensureParent_ends hfs (target.child name)).of_ok hparent
  have hready := ensureParent_again hfs hparent (Overlay.refl (W := fun _ => True) hgrows.plain)
  have hrun := forEach_copyInto_behind_parents hfs hpart hnames hne hparent hreached
  exact ⟨ready, hparent, hready, hcopy,
    forEach_copyInto_within hgrows.plain hpart hready hnames hrun⟩

/-! ## The copy of one match among others -/

/-- **A match that the copies before it leave alone is copied as if it were the only one.** -/
theorem copyInto_unhindered (hfs : fs.Plain) (hname : m.fileName? = some name)
    (hothers : ∀ p ∈ before, p.fileName? ≠ none ∧ p.fileName? ≠ some name)
    (halone : copyInto target m fs = .ok () alone)
    (hreached : forEach (copyInto target) before fs = .ok () now)
    (hkept : ∀ below, now.entryAt? (fs.locate m ++ below) = fs.entryAt? (fs.locate m ++ below)) :
    ∃ now', copyInto target m now = .ok () now' := by
  by_cases hne : before = []
  · subst hne
    cases hreached
    exact ⟨alone, halone⟩
  obtain ⟨ready, hparent, hready, hcopy, hwithin⟩ :=
    exists_behind_parents hfs hname (fun p hp => (hothers p hp).1) hne halone hreached
  have hpart := HostPath.isPart_of_fileName? hname
  have hgrows := (ensureParent_ends hfs (target.child name)).of_ok hparent
  -- since the parents were made, nothing has changed at the match nor where it is copied to
  have hlike : Alike (fun q => ready.locate m <+: q ∨ ready.locate (target.child name) <+: q)
      ready now := by
    refine ⟨hwithin.overlay, fun q hq => ?_⟩
    rcases hq with ⟨below, rfl⟩ | hq
    · rw [hgrows.locate, hkept]
      rcases Overlay.rest hgrows (fs.locate m ++ below) not_false with hsame | ⟨hnone, hdir⟩
      · exact hsame.symm
      · have hgone := hkept below
        rw [hnone, hwithin.overlay.dirs _ hdir] at hgone
        cases hgone
    · rw [ready.locate_child target hpart] at hq
      refine hwithin.rest q ?_
      rintro ⟨p, hp, hbelow⟩
      obtain ⟨hsome, hdistinct⟩ := hothers p hp
      obtain ⟨other, hother⟩ := Option.ne_none_iff_exists'.1 hsome
      rw [locate_into ready target hother] at hbelow
      have hne' : other ≠ name := fun heq => hdistinct (heq ▸ hother)
      exact Place.not_prefix_of_sibling hne' hq hbelow
  obtain ⟨now', hcopy', -⟩ := (copyEntry_repeatable hgrows.plain hpart hready
    (fun below => Or.inl (List.prefix_append _ _))
    (fun below => Or.inr (List.prefix_append _ _)) hcopy).again now hlike
  rw [copyInto_eq target hname]
  exact ⟨now', hcopy'⟩

/-- The copy of a match into a directory at or inside the match does not return. -/
theorem not_inside_of_copyInto (hfs : fs.Plain) (hname : m.fileName? = some name)
    (h : copyInto target m fs = .ok () fs') : ¬ fs.locate m <+: fs.locate target := by
  rintro ⟨more, hmore⟩
  have hpart := HostPath.isPart_of_fileName? hname
  have hplace : fs.locate (target.child name) = fs.locate m ++ (more ++ [name]) := by
    rw [fs.locate_child target hpart, ← hmore, List.append_assoc]
  rw [copyInto_eq target hname] at h
  rcases (copyEntry_eq_ok_iff hfs).1 h with ⟨-, hcopy⟩ | ⟨hfile, n, hcopy⟩
  · exact copyTreeTo_inside pathLimit hfs (target.text_child_ne_empty hpart.toIsSegment) (by simp)
      hplace hcopy
  · -- a file has nothing inside
    obtain ⟨-, -, b, hb⟩ := (FileSystem.isFile_iff hfs).1 hfile
    obtain ⟨hover, hcopied⟩ := (copyFile_ends hfs m (target.child name)).of_ok hcopy
    have hne : fs.locate (target.child name) ≠ fs.locate m := by
      rw [hplace]
      simp
    have hkept := (hover.file_iff hne).2 hb
    have hthere := hcopied b hb
    rw [hplace] at hthere
    have hnil := FileSystem.eq_nil_of_below_file hkept (by rw [hthere]; simp)
    simp at hnil

/-- **A match stays as it was** if it is not at or below the name of a match before it, and the
directory is written without `..`. -/
theorem unchanged_of_outside (hfs : fs.Plain) (hname : m.fileName? = some name)
    (hnames : ∀ p ∈ before, p.fileName? ≠ none) (hdots : ".." ∉ target.steps)
    (halone : copyInto target m fs = .ok () alone)
    (hreached : forEach (copyInto target) before fs = .ok () now)
    (hout : ∀ p ∈ before, ¬ fs.locate (target.into p) <+: fs.locate m) (below : Place) :
    now.entryAt? (fs.locate m ++ below) = fs.entryAt? (fs.locate m ++ below) := by
  by_cases hne : before = []
  · subst hne
    cases hreached
    rfl
  have hpart := HostPath.isPart_of_fileName? hname
  have hinside := not_inside_of_copyInto hfs hname halone
  obtain ⟨ready, hparent, -, -, hwithin⟩ :=
    exists_behind_parents hfs hname hnames hne halone hreached
  have hgrows := (ensureParent_ends hfs (target.child name)).of_ok hparent
  -- a place at or below the match is at or below a name in the directory only if that is the match
  have hbeside : ∀ other, fs.locate m <+: fs.locate target ++ [other] →
      fs.locate m = fs.locate target ++ [other] := fun other hp =>
    (List.prefix_concat_iff.1 hp).resolve_right hinside
  have hcopied : now.entryAt? (fs.locate m ++ below) = ready.entryAt? (fs.locate m ++ below) := by
    refine hwithin.rest _ ?_
    rintro ⟨p, hp, hbelow⟩
    obtain ⟨other, hother⟩ := Option.ne_none_iff_exists'.1 (hnames p hp)
    have houtside := hout p hp
    rw [hgrows.locate, locate_into fs target hother] at hbelow
    rw [locate_into fs target hother] at houtside
    rcases List.prefix_or_prefix_of_prefix hbelow (List.prefix_append _ below) with hp' | hp'
    · exact houtside hp'
    · exact houtside (hbeside other hp' ▸ List.prefix_rfl)
  have hmade : ready.entryAt? (fs.locate m ++ below) = fs.entryAt? (fs.locate m ++ below) := by
    obtain ⟨hpaved, hsame⟩ := ensureParent_paves hfs
      (HostPath.dots_not_mem_steps_child hdots hpart) hparent
    rw [fs.locate_child target hpart] at hpaved hsame
    by_cases hway : fs.locate m ++ below <+: fs.locate target ++ [name]
    · rcases List.prefix_concat_iff.1 hway with heq | hp
      · rw [heq]
        exact hsame
      · exact absurd ((List.prefix_append _ below).trans hp) hinside
    · exact hpaved.rest _ hway
  rw [hcopied, hmade]

theorem after_forEach_append {act : HostPath → FileAction Unit}
    (h : forEach act before fs = .ok () now) (rest : List HostPath) :
    (forEach act (before ++ rest)).after fs = (forEach act rest).after now := by
  induction before generalizing fs with
  | nil =>
      cases h
      rfl
  | cons p more ih =>
      obtain ⟨fs1, hact, hmore⟩ := forEach_cons_eq_ok h
      rw [List.cons_append, forEach, after_bind_of_ok hact]
      exact ih hmore

/-- **A match that is copied among others is there afterwards**, however the copies end. -/
theorem forEach_copyInto_arrives (hfs : fs.Plain) (hname : m.fileName? = some name)
    (hbefore : ∀ p ∈ before, p.fileName? ≠ none ∧ p.fileName? ≠ some name)
    (hafter : ∀ p ∈ after, p.fileName? ≠ none ∧ p.fileName? ≠ some name)
    (hself : fs.locate (target.into m) = fs.locate m
      ∨ fs.Apart (fs.locate m) (fs.locate (target.into m)) (fs.locate m))
    (halone : copyInto target m fs = .ok () alone)
    (hreached : forEach (copyInto target) before fs = .ok () now)
    (hkept : ∀ below, now.entryAt? (fs.locate m ++ below) = fs.entryAt? (fs.locate m ++ below))
    {below : Place} {e : Entry} (he : fs.entryAt? (fs.locate m ++ below) = some e) :
    ((forEach (copyInto target) (before ++ m :: after)).after fs).entryAt?
      (fs.locate target ++ name :: below) = some e := by
  obtain ⟨now', hcopy⟩ := copyInto_unhindered hfs hname hbefore halone hreached hkept
  have hover : Overlay (fun q => ∃ p ∈ before, fs.locate (target.into p) <+: q) fs now := by
    have hends := after_forEach_copyInto hfs target before
    rw [FileAction.after, hreached] at hends
    exact hends
  have hover' := (copyEntry_below hover.plain m (target.into m)).of_ok hcopy
  have hpart := HostPath.isPart_of_fileName? hname
  have hplace : fs.locate target ++ name :: below = fs.locate (target.into m) ++ below := by
    rw [locate_into fs target hname, List.append_assoc, List.singleton_append]
  -- the match is copied from where it was and as it was
  have hself' : now.locate (target.into m) = now.locate m
      ∨ now.Apart (now.locate m) (now.locate (target.into m)) (now.locate m) := by
    have hcopies : now.copiesOf (fs.locate m) (fs.locate (target.into m))
        = fs.copiesOf (fs.locate m) (fs.locate (target.into m)) :=
      FileSystem.copiesOf_congr fun below b => by rw [hkept]
    rw [hover.locate, hover.locate]
    refine hself.imp id fun hapart q hq => hapart q ?_
    rw [← hcopies]
    exact hq
  have harrived : now'.entryAt? (fs.locate target ++ name :: below) = some e := by
    have htext : (target.into m).text ≠ "" := by
      rw [HostPath.into_eq_child hname]
      exact target.text_child_ne_empty hpart.toIsSegment
    rw [hplace, ← hover.locate]
    refine copyEntry_arrives hover.plain htext hself' hcopy ?_
    rw [hover.locate, hkept]
    exact he
  rw [after_forEach_append hreached, forEach, after_bind_of_ok hcopy]
  refine entry_after_copies hover'.plain (fun p hp hbelow => ?_) harrived
  obtain ⟨hsome, hdistinct⟩ := hafter p hp
  obtain ⟨other, hother⟩ := Option.ne_none_iff_exists'.1 hsome
  rw [hover'.locate, hover.locate, locate_into fs target hother] at hbelow
  have hne : other ≠ name := fun heq => hdistinct (heq ▸ hother)
  refine Place.not_prefix_of_sibling hne ?_ hbelow
  exact ⟨below, by simp⟩

end FileAction

/-! ## The command -/

namespace Setting

open FileAction (copyInto returns)

variable {s : Setting} {w : World} {src dst : String} {before after : List HostPath}
variable {m : HostPath} {now : FileSystem}

theorem filesAfter_copy_pattern (hp : isPattern (scriptPath src) = true) :
    (s.copy src dst).filesAfter w
      = (forEach (copyInto (s.locate dst)) (w.files.expand (s.locate src)).1).after w.files := by
  rw [copy, hp, if_pos rfl, filesAfter_expanded_bind, Action.filesAfter_files]
  rfl

/-- **A match that is copied if it is alone**: the matches of a pattern have different names, and
the copy of this one to its name in the directory would return if it were the only one. -/
structure CopiedAlone (s : Setting) (src dst : String) (fs : FileSystem) (before : List HostPath)
    (m : HostPath) (after : List HostPath) : Prop where
  pattern : isPattern (scriptPath src) = true
  found : (fs.expand (s.locate src)).1 = before ++ m :: after
  named : ∀ p ∈ before ++ m :: after, p.fileName? ≠ none
  distinct : ((before ++ m :: after).map HostPath.fileName?).Nodup
  alone : returns (copyInto (s.locate dst) m) fs = true

/-- **A match is present in a directory** under its own name, with the contents that it had. -/
def PresentIn (s : Setting) (dst : String) (m : HostPath) (fs fs' : FileSystem) : Prop :=
  ∃ name, m.fileName? = some name ∧ ∀ below e, fs.entryAt? (fs.locate m ++ below) = some e →
    fs'.entryAt? (fs.locate (s.locate dst) ++ name :: below) = some e

theorem CopiedAlone.others {fs : FileSystem} (h : s.CopiedAlone src dst fs before m after) :
    ∃ name, m.fileName? = some name
      ∧ (∀ p ∈ before, p.fileName? ≠ none ∧ p.fileName? ≠ some name)
      ∧ ∀ p ∈ after, p.fileName? ≠ none ∧ p.fileName? ≠ some name := by
  obtain ⟨name, hname⟩ := Option.ne_none_iff_exists'.1 (h.named m (by simp))
  have hdistinct := h.distinct
  rw [List.map_append, List.map_cons, List.nodup_append, List.nodup_cons] at hdistinct
  obtain ⟨-, ⟨hbehind, -⟩, hfront⟩ := hdistinct
  refine ⟨name, hname, fun p hp => ⟨h.named p (by simp [hp]), fun heq => ?_⟩,
    fun p hp => ⟨h.named p (by simp [hp]), fun heq => ?_⟩⟩
  · exact hfront _ (List.mem_map_of_mem hp) _ List.mem_cons_self (heq.trans hname.symm)
  · exact hbehind (hname ▸ heq ▸ List.mem_map_of_mem hp)

/-- **A bulk copy covers every match that it comes to.** In a tree without links, let the matches
of a pattern have different names, and let the copy of one of them return if it is made alone. If
the command comes to that match, finds it as it was and does not copy files of it into it, unless
onto itself, then the match is present in the directory after the command, also if this fails
later. The copies before it have left it as it was if it is not at or below one of the places they
go to and the directory is written without `..`. -/
theorem copy_covers_match (hfs : w.files.Plain)
    (hcopied : s.CopiedAlone src dst w.files before m after)
    (hreached : forEach (copyInto (s.locate dst)) before w.files = .ok () now)
    (hself : w.files.locate ((s.locate dst).into m) = w.files.locate m
      ∨ w.files.Apart (w.files.locate m) (w.files.locate ((s.locate dst).into m))
        (w.files.locate m)) :
    ((∀ below, now.entryAt? (w.files.locate m ++ below)
          = w.files.entryAt? (w.files.locate m ++ below)) →
        s.PresentIn dst m w.files ((s.copy src dst).filesAfter w))
      ∧ (".." ∉ (s.locate dst).steps →
        (∀ p ∈ before, ¬ w.files.locate ((s.locate dst).into p) <+: w.files.locate m) →
        ∀ below, now.entryAt? (w.files.locate m ++ below)
          = w.files.entryAt? (w.files.locate m ++ below)) := by
  obtain ⟨name, hname, hbefore, hafter⟩ := hcopied.others
  obtain ⟨⟨⟩, alone, halone⟩ := FileAction.returns_iff.1 hcopied.alone
  constructor
  · intro hkept
    refine ⟨name, hname, fun below e he => ?_⟩
    rw [filesAfter_copy_pattern hcopied.pattern, hcopied.found]
    exact FileAction.forEach_copyInto_arrives hfs hname hbefore hafter hself halone hreached hkept
      he
  · intro hdots hout below
    exact FileAction.unchanged_of_outside hfs hname (fun p hp => (hbefore p hp).1) hdots halone
      hreached hout below

def nestedCard : FileSystem :=
  (((((FileSystem.empty []).setDir ["a"]).setDir ["a", "a"]).setFile ["a", "a", "b"]
    ⟨#[50]⟩).setDir ["a", "a", "a"]).setFile ["a", "a", "a", "b"] ⟨#[49]⟩

theorem nestedCard_plain : nestedCard.Plain := by
  have h1 : ((FileSystem.empty []).setDir ([] ++ ["a"])).Plain :=
    FileSystem.plain_empty.setDir rfl (by decide) rfl
  have h2 : (((FileSystem.empty []).setDir ["a"]).setDir (["a"] ++ ["a"])).Plain :=
    h1.setDir rfl (by decide) rfl
  have h3 : ((((FileSystem.empty []).setDir ["a"]).setDir ["a", "a"]).setFile
      (["a", "a"] ++ ["b"]) ⟨#[50]⟩).Plain := h2.setFile rfl (by decide) (fun h => by cases h) _
  have h4 : (((((FileSystem.empty []).setDir ["a"]).setDir ["a", "a"]).setFile
      ["a", "a", "b"] ⟨#[50]⟩).setDir (["a", "a"] ++ ["a"])).Plain :=
    h3.setDir rfl (by decide) rfl
  have h5 : ((((((FileSystem.empty []).setDir ["a"]).setDir ["a", "a"]).setFile
      ["a", "a", "b"] ⟨#[50]⟩).setDir ["a", "a", "a"]).setFile
      (["a", "a", "a"] ++ ["b"]) ⟨#[49]⟩).Plain :=
    h4.setFile rfl (by decide) (fun h => by cases h) _
  exact h5

theorem nestedCard_copiedAlone (dst : String)
    (halone : returns (copyInto (onRootCard.locate dst) ⟨"/a/a/b"⟩) nestedCard = true) :
    onRootCard.CopiedAlone "sdmc:/a/a/*" dst nestedCard [⟨"/a/a/a"⟩] ⟨"/a/a/b"⟩ [] where
  pattern := by decide +kernel
  found := by decide +kernel
  named := by decide +kernel
  distinct := by decide +kernel
  alone := halone

/-- The second match of a pattern is present in a new directory. -/
theorem nestedCard_copy_covers_last :
    onRootCard.PresentIn "sdmc:/out/" ⟨"/a/a/b"⟩ nestedCard
      ((onRootCard.copy "sdmc:/a/a/*" "sdmc:/out/").filesAfter (.ofFiles nestedCard)) := by
  have hplace : nestedCard.locate ((onRootCard.locate "sdmc:/out/").into ⟨"/a/a/b"⟩)
      = ["out", "b"] := by decide +kernel
  have hmatch : nestedCard.locate ⟨"/a/a/b"⟩ = ["a", "a", "b"] := by decide +kernel
  obtain ⟨⟨⟩, now, hreached⟩ := FileAction.returns_iff.1
    (by decide +kernel : returns
      (forEach (copyInto (onRootCard.locate "sdmc:/out/")) [⟨"/a/a/a"⟩]) nestedCard = true)
  obtain ⟨hcovers, hkept⟩ := copy_covers_match (w := .ofFiles nestedCard) nestedCard_plain
    (nestedCard_copiedAlone "sdmc:/out/" (by decide +kernel)) hreached (Or.inr fun q hq => by
      obtain ⟨below, b, -, rfl⟩ := hq
      rw [World.ofFiles, hplace, hmatch]
      simp)
  refine hcovers (hkept (by decide +kernel) fun p hp => ?_)
  obtain rfl := List.mem_singleton.1 hp
  have hfirst : nestedCard.locate ((onRootCard.locate "sdmc:/out/").into ⟨"/a/a/a"⟩)
      = ["out", "a"] := by decide +kernel
  rw [World.ofFiles, hfirst, hmatch]
  simp

def bytesOf? : Entry → Option ByteArray
  | .file b => some b
  | _ => none

/-- A match is not present in a directory where other bytes stand at the place of one of its
files. -/
theorem not_presentIn {fs fs' : FileSystem} {name : String} (below : Place) {b other : ByteArray}
    (hname : m.fileName? = some name) (hb : fs.entryAt? (fs.locate m ++ below) = some (.file b))
    (hother : (fs'.entryAt? (fs.locate (s.locate dst) ++ name :: below)).bind bytesOf?
      = some other) (hne : b ≠ other) : ¬ s.PresentIn dst m fs fs' := by
  rintro ⟨name', hname', hpresent⟩
  obtain rfl := Option.some.inj (hname.symm.trans hname')
  rw [hpresent below _ hb] at hother
  exact hne (Option.some.inj hother)

/-- **A bulk copy does not cover every match.** The command ends at the first copy that fails. Even
if it returns, the copy of a match before may have written into a match that is still to come, and
the copy of a match may write into the match itself. -/
theorem copy_does_not_cover_all :
    (¬ ∀ (s : Setting) (src dst : String) (w : World) (before after : List HostPath)
        (m : HostPath), w.files.Plain → s.CopiedAlone src dst w.files before m after →
        s.PresentIn dst m w.files ((s.copy src dst).filesAfter w))
      ∧ (¬ ∀ (s : Setting) (src dst : String) (w w' : World) (before after : List HostPath)
        (m : HostPath), w.files.Plain → s.CopiedAlone src dst w.files before m after →
        s.copy src dst w = .ok () w' → s.PresentIn dst m w.files w'.files)
      ∧ ¬ ∀ (s : Setting) (src dst : String) (w w' : World) (m : HostPath), w.files.Plain →
        s.CopiedAlone src dst w.files [] m [] → s.copy src dst w = .ok () w' →
        s.PresentIn dst m w.files w'.files := by
  have hname : HostPath.fileName? ⟨"/a/a/b"⟩ = some "b" := by decide +kernel
  have hplace : nestedCard.locate ⟨"/a/a/b"⟩ = ["a", "a", "b"] := by decide +kernel
  have hmatch : nestedCard.entryAt? (nestedCard.locate ⟨"/a/a/b"⟩ ++ [])
      = some (.file ⟨#[50]⟩) := by
    rw [hplace]
    rfl
  have hne : (⟨#[50]⟩ : ByteArray) ≠ ⟨#[49]⟩ := by decide
  refine ⟨fun hall => ?_, fun hall => ?_, fun hall => ?_⟩
  · -- the copy of the first match, a directory, into itself fails
    refine absurd (hall onRootCard "sdmc:/a/a/*" "sdmc:/a/a/a/" (.ofFiles nestedCard) _ _ _
      nestedCard_plain (nestedCard_copiedAlone _ (by decide +kernel))) ?_
    exact not_presentIn [] hname hmatch (by decide +kernel) hne
  · -- the first match is copied onto the directory of the second one
    obtain ⟨w', hrun⟩ := Action.exists_eq_ok_of_isOk (onRootCard.copy "sdmc:/a/a/*" "sdmc:/a/")
      (.ofFiles nestedCard) (by decide +kernel)
    refine absurd (hall _ _ _ (.ofFiles nestedCard) w' _ _ _ nestedCard_plain
      (nestedCard_copiedAlone _ (by decide +kernel)) hrun) ?_
    rw [← Action.filesAfter_of_ok hrun]
    exact not_presentIn [] hname hmatch (by decide +kernel) hne
  · -- the directory in the match is copied onto the match
    obtain ⟨w', hrun⟩ := Action.exists_eq_ok_of_isOk (onRootCard.copy "sdmc:/a/*" "sdmc:/")
      (.ofFiles nestedCard) (by decide +kernel)
    have hcopied : onRootCard.CopiedAlone "sdmc:/a/*" "sdmc:/" nestedCard [] ⟨"/a/a"⟩ [] :=
      ⟨by decide +kernel, by decide +kernel, by decide +kernel, by decide +kernel,
        by decide +kernel⟩
    have hplace' : nestedCard.locate ⟨"/a/a"⟩ = ["a", "a"] := by decide +kernel
    have hmatch' : nestedCard.entryAt? (nestedCard.locate ⟨"/a/a"⟩ ++ ["b"])
        = some (.file ⟨#[50]⟩) := by
      rw [hplace']
      rfl
    refine absurd (hall _ _ _ (.ofFiles nestedCard) w' _ nestedCard_plain hcopied hrun) ?_
    rw [← Action.filesAfter_of_ok hrun]
    exact not_presentIn ["b"] (by decide +kernel : HostPath.fileName? ⟨"/a/a"⟩ = some "a")
      hmatch' (by decide +kernel) hne

end Setting

end PackageScript
