import PackageScript.Files.Copy
import PackageScript.Proofs.Files.Directories

set_option autoImplicit false

/-! # What a copy writes

Copying what is at one place to another writes where the copies of files go, the places that
`FileSystem.copiesOf` tells beforehand. If none of these places lies in what is copied
(`FileSystem.Apart`), the files to copy stay as they are while the copy runs, so a copy that
returns has put each of them, with the bytes that it had when the copy began, at its new place
(`copyTreeTo_copies`). A copy that fails has still written nowhere else.
-/

namespace PackageScript

namespace FileSystem

variable {fs fs' fs'' : FileSystem} {src dst top : Place}

/-! ## Where copies go -/

/-- **The places where the copies of the files at or below `src` go**, below `dst`. -/
def copiesOf (fs : FileSystem) (src dst : Place) : Place → Prop := fun q =>
  ∃ below b, fs.entryAt? (src ++ below) = some (.file b) ∧ q = dst ++ below

/-- **No copy goes to a place at or below `top`.** -/
def Apart (fs : FileSystem) (src dst top : Place) : Prop :=
  ∀ q, fs.copiesOf src dst q → ¬ top <+: q

/-- **The files at or below `src` have been copied**: each of them stands below `dst`
afterwards. -/
def Copied (fs fs' : FileSystem) (src dst : Place) : Prop :=
  ∀ below b, fs.entryAt? (src ++ below) = some (.file b) →
    fs'.entryAt? (dst ++ below) = some (.file b)

theorem copiesOf_append {below : Place} {q : Place}
    (h : fs.copiesOf (src ++ below) (dst ++ below) q) : fs.copiesOf src dst q := by
  obtain ⟨more, b, hfile, rfl⟩ := h
  rw [List.append_assoc] at hfile ⊢
  exact ⟨below ++ more, b, hfile, rfl⟩

theorem Apart.append {below : Place} (h : fs.Apart src dst top) :
    fs.Apart (src ++ below) (dst ++ below) top := fun q hq => h q (copiesOf_append hq)

theorem Apart.below {below : Place} (h : fs.Apart src dst top) :
    fs.Apart src dst (top ++ below) := fun q hq hp =>
  h q hq ((List.prefix_append top below).trans hp)

theorem copiesOf_congr
    (h : ∀ below b, fs'.entryAt? (src ++ below) = some (.file b)
      ↔ fs.entryAt? (src ++ below) = some (.file b)) :
    fs'.copiesOf src dst = fs.copiesOf src dst := by
  funext q
  exact propext ⟨fun ⟨below, b, hfile, hq⟩ => ⟨below, b, (h below b).1 hfile, hq⟩,
    fun ⟨below, b, hfile, hq⟩ => ⟨below, b, (h below b).2 hfile, hq⟩⟩

theorem Overlay.file_iff_of_apart (h : Overlay (fs.copiesOf src dst) fs fs')
    (hapart : fs.Apart src dst top) {below : Place} {b : ByteArray} :
    fs'.entryAt? (top ++ below) = some (.file b) ↔ fs.entryAt? (top ++ below) = some (.file b) :=
  h.file_iff fun hq => hapart _ hq (List.prefix_append top below)

end FileSystem

namespace FileAction

open FileSystem (Overlay Grows Copied)

variable {fs fs' : FileSystem}

/-! ## One file -/

theorem clearFile_ends (hfs : fs.Plain) (p : HostPath) :
    Ends (clearFile p) fs
      (fun _ fs' => fs' = if fs.isFile p then fs.erase (fs.locate p) else fs)
      (fun _ fs' => fs' = fs) := by
  dsimp only [Ends, clearFile]
  rw [FileSystem.isNonDir_eq_isFile hfs]
  by_cases hfile : fs.isFile p = true
  · rw [if_pos hfile, if_pos hfile]
    exact (removeFile_ends hfs p).mono (fun _ _ h => h.2) fun _ _ h => h
  · rw [if_neg hfile, if_neg hfile]

theorem clearFile_overlay (hfs : fs.Plain) (p : HostPath) :
    Ends (clearFile p) fs (fun _ fs' => Overlay (Eq (fs.locate p)) fs fs')
      (fun _ fs' => Overlay (Eq (fs.locate p)) fs fs') := by
  refine (clearFile_ends hfs p).mono ?_ ?_
  · rintro _ _ rfl
    by_cases hfile : fs.isFile p = true
    · rw [if_pos hfile]
      obtain ⟨hleads, -, b, hb⟩ := (FileSystem.isFile_iff hfs).1 hfile
      exact .eraseFile hfs (hleads.slot hfs (by rw [hb]; simp)) hb rfl
    · rw [if_neg hfile]
      exact .refl hfs
  · rintro _ _ rfl
    exact .refl hfs

/-- **A file is copied to its new place and nowhere else.** -/
theorem copyFile_ends (hfs : fs.Plain) (src dst : HostPath) :
    Ends (copyFile src dst) fs
      (fun _ fs' => Overlay (Eq (fs.locate dst)) fs fs'
        ∧ ∀ b, fs.entryAt? (fs.locate src) = some (.file b) →
          fs'.entryAt? (fs.locate dst) = some (.file b))
      (fun _ fs' => Overlay (Eq (fs.locate dst)) fs fs') := by
  rw [copyFile]
  by_cases hsame : src.same dst = true
  · rw [if_pos hsame]
    refine ends_ask (fun _ _ => ⟨.refl hfs, fun b hb => ?_⟩) fun _ _ => .refl hfs
    rw [← fs.locate_eq_of_same hsame]
    exact hb
  rw [if_neg hsame]
  refine Ends.bind (ends_ask (fun found hstat => ?_) fun _ _ => .refl hfs)
  obtain ⟨place, source⟩ := found
  obtain ⟨-, rfl, hsource, -⟩ := (FileSystem.stat_eq_ok_iff hfs).1 hstat
  refine Ends.bind ((ensureParent_ends hfs dst).mono (fun _ fs1 h1 => ?_)
    fun _ _ h1 => h1.overlay)
  refine Ends.bind ((clearFile_overlay h1.plain dst).mono (fun _ fs2 h2 => ?_) fun _ _ h2 => ?_)
  · rw [h1.locate] at h2
    have h12 := h1.overlay.trans h2
    refine Ends.bind ((createFile_ends h12.plain dst).mono (fun place fs3 h3 => ?_)
      fun _ _ h3 => ?_)
    · obtain ⟨rfl, hslot, hnot, rfl⟩ := h3
      rw [h12.locate] at hslot hnot ⊢
      have h23 : Overlay (Eq (fs.locate dst)) fs2 (fs2.setFile (fs.locate dst) .empty) :=
        .setFile h12.plain hslot hnot rfl .empty
      have h13 := h12.trans h23
      cases source with
      | dir es => exact h13
      | link t => exact h13
      | file bytes =>
          -- the new file is there and empty, and is written over with the bytes read before
          have hslot3 := hslot.mono h23.dirs
          have hnot3 : (fs2.setFile (fs.locate dst) .empty).entryAt? (fs.locate dst)
              ≠ some .dir := by
            rw [FileSystem.entryAt?_setFile hslot hnot, if_pos rfl]
            simp
          refine ⟨h13.trans (.setFile h13.plain hslot3 hnot3 rfl bytes), fun b hb => ?_⟩
          rw [FileSystem.entryAt?_eq_file_iff, hsource, Option.some.injEq] at hb
          rw [FileSystem.entryAt?_setFile hslot3 hnot3, if_pos rfl, Node.file.inj hb]
    · subst h3
      exact h12
  · rw [h1.locate] at h2
    exact h1.overlay.trans h2

/-! ## The entries of a directory -/

/-- The places where the copies of some entries go. -/
def copiesOfEntries (fs : FileSystem) (src dst : Place) (entries : List (String × Entry)) :
    Place → Prop := fun q =>
  ∃ e ∈ entries, fs.copiesOf (src ++ [e.1]) (dst ++ [e.1]) q

/-- **Entries that are ready to be copied one by one**: different names of what stands at
`src`, none of which is copied to a place at or below `src`. -/
structure Ready (fs : FileSystem) (src dst : Place) (entries : List (String × Entry)) : Prop where
  nodup : (entries.map Prod.fst).Nodup
  isName : ∀ e ∈ entries, IsName e.1
  entry : ∀ e ∈ entries, fs.entryAt? (src ++ [e.1]) = some e.2
  apart : ∀ e ∈ entries, fs.Apart (src ++ [e.1]) (dst ++ [e.1]) src

namespace Ready

variable {src dst : Place} {name : String} {e : Entry} {rest : List (String × Entry)}

theorem source_iff (h : Ready fs src dst ((name, e) :: rest))
    (hover : Overlay (fs.copiesOf (src ++ [name]) (dst ++ [name])) fs fs') (below : Place)
    (b : ByteArray) :
    fs'.entryAt? (src ++ below) = some (.file b) ↔ fs.entryAt? (src ++ below) = some (.file b) :=
  hover.file_iff_of_apart (h.apart (name, e) List.mem_cons_self)

theorem copiesOf_eq (h : Ready fs src dst ((name, e) :: rest))
    (hover : Overlay (fs.copiesOf (src ++ [name]) (dst ++ [name])) fs fs') (below : Place) :
    fs'.copiesOf (src ++ below) (dst ++ below) = fs.copiesOf (src ++ below) (dst ++ below) :=
  FileSystem.copiesOf_congr fun more b => by
    rw [List.append_assoc]
    exact h.source_iff hover (below ++ more) b

theorem copiesOfEntries_eq (h : Ready fs src dst ((name, e) :: rest))
    (hover : Overlay (fs.copiesOf (src ++ [name]) (dst ++ [name])) fs fs') :
    copiesOfEntries fs' src dst rest = copiesOfEntries fs src dst rest := by
  funext q
  exact propext
    ⟨fun ⟨e', he', hq⟩ => ⟨e', he', h.copiesOf_eq hover [e'.1] ▸ hq⟩,
      fun ⟨e', he', hq⟩ => ⟨e', he', (h.copiesOf_eq hover [e'.1]).symm ▸ hq⟩⟩

/-- The other entries are still ready once the first one has been copied. -/
theorem tail (h : Ready fs src dst ((name, e) :: rest))
    (hover : Overlay (fs.copiesOf (src ++ [name]) (dst ++ [name])) fs fs') :
    Ready fs' src dst rest := by
  have hnodup := h.nodup
  rw [List.map_cons, List.nodup_cons] at hnodup
  refine ⟨hnodup.2, fun e' he' => h.isName e' (List.mem_cons_of_mem _ he'), fun e' he' => ?_,
    fun e' he' q hq => ?_⟩
  · have hentry := h.entry e' (List.mem_cons_of_mem _ he')
    rcases hover.rest (src ++ [e'.1]) fun hq =>
        h.apart (name, e) List.mem_cons_self _ hq (List.prefix_append src [e'.1])
      with heq | ⟨hnone, -⟩
    · rw [heq, hentry]
    · rw [hnone] at hentry
      cases hentry
  · rw [h.copiesOf_eq hover] at hq
    exact h.apart e' (List.mem_cons_of_mem _ he') q hq

/-- The copies of the first entry are not touched by the copying of the others, which go below
other names. -/
theorem copied_head {fs'' : FileSystem} (h : Ready fs src dst ((name, e) :: rest))
    (hcopied : Copied fs fs' (src ++ [name]) (dst ++ [name]))
    (hover : Overlay (copiesOfEntries fs src dst rest) fs' fs'') :
    Copied fs fs'' (src ++ [name]) (dst ++ [name]) := by
  have hnodup := h.nodup
  rw [List.map_cons, List.nodup_cons] at hnodup
  intro below b hb
  refine (hover.file_iff ?_).2 (hcopied below b hb)
  rintro ⟨other, hother, more, c, -, hq⟩
  -- a place below both new places would have both names in front
  rw [List.append_assoc, List.append_assoc, List.append_cancel_left_eq] at hq
  exact hnodup.1 (List.mem_map.2 ⟨other, hother, ((List.cons.inj hq).1).symm⟩)

theorem copied_tail {fs'' : FileSystem} (h : Ready fs src dst ((name, e) :: rest))
    (hover : Overlay (fs.copiesOf (src ++ [name]) (dst ++ [name])) fs fs') {other : String}
    (hcopied : Copied fs' fs'' (src ++ [other]) (dst ++ [other])) :
    Copied fs fs'' (src ++ [other]) (dst ++ [other]) := by
  intro below b hb
  rw [List.append_assoc] at hb
  have hb' := (h.source_iff hover ([other] ++ below) b).2 hb
  rw [← List.append_assoc] at hb'
  exact hcopied below b hb'

end Ready

/-- **What the copying of a directory is relied on for** when it is called for a part of a tree:
it writes where copies go and, if it returns, it has copied every file. -/
def CopiesTrees (copyDir : HostPath → HostPath → FileAction Unit) : Prop :=
  ∀ (fs : FileSystem) (src dst : HostPath), fs.Plain →
    fs.Apart (fs.locate src) (fs.locate dst) (fs.locate src) →
    Ends (copyDir src dst) fs
      (fun _ fs' => Overlay (fs.copiesOf (fs.locate src) (fs.locate dst)) fs fs'
        ∧ Copied fs fs' (fs.locate src) (fs.locate dst))
      (fun _ fs' => Overlay (fs.copiesOf (fs.locate src) (fs.locate dst)) fs fs')

theorem copyFile_copies (hfs : fs.Plain) (src dst : HostPath) {b : ByteArray}
    (hfile : fs.entryAt? (fs.locate src) = some (.file b)) :
    Ends (copyFile src dst) fs
      (fun _ fs' => Overlay (fs.copiesOf (fs.locate src) (fs.locate dst)) fs fs'
        ∧ Copied fs fs' (fs.locate src) (fs.locate dst))
      (fun _ fs' => Overlay (fs.copiesOf (fs.locate src) (fs.locate dst)) fs fs') := by
  have hplace : ∀ q, fs.locate dst = q → fs.copiesOf (fs.locate src) (fs.locate dst) q := by
    rintro q rfl
    exact ⟨[], b, by rw [List.append_nil]; exact hfile, by rw [List.append_nil]⟩
  refine (copyFile_ends hfs src dst).mono ?_ fun _ _ h => h.mono hplace
  rintro _ fs' ⟨hover, hcopy⟩
  refine ⟨hover.mono hplace, fun below c hc => ?_⟩
  -- a file has nothing below it, so its copy is the only one
  have hnil : below = [] := FileSystem.eq_nil_of_below_file hfile (by rw [hc]; simp)
  rw [hnil, List.append_nil] at hc ⊢
  exact hcopy c hc

/-- **Entries are copied one by one.** The entries have different names, so the copy of one is
not touched by the copying of those behind it. -/
theorem copyEntries_ends {copyDir : HostPath → HostPath → FileAction Unit}
    (hcopyDir : CopiesTrees copyDir) (src dst : HostPath) (entries : List (String × Entry))
    (hfs : fs.Plain) (hready : Ready fs (fs.locate src) (fs.locate dst) entries) :
    Ends (copyEntries copyDir src dst entries) fs
      (fun _ fs' => Overlay (copiesOfEntries fs (fs.locate src) (fs.locate dst) entries) fs fs'
        ∧ ∀ e ∈ entries, Copied fs fs' (fs.locate src ++ [e.1]) (fs.locate dst ++ [e.1]))
      (fun _ fs' =>
        Overlay (copiesOfEntries fs (fs.locate src) (fs.locate dst) entries) fs fs') := by
  induction entries generalizing fs with
  | nil => exact ⟨.refl hfs, fun e he => by cases he⟩
  | cons entry rest ih =>
      obtain ⟨name, e⟩ := entry
      have hname := (hready.isName (name, e) List.mem_cons_self).toIsPart
      have hentry := hready.entry (name, e) List.mem_cons_self
      have hapart := hready.apart (name, e) List.mem_cons_self
      have hsrc := fs.locate_child src hname
      have hdst := fs.locate_child dst hname
      generalize hS : fs.locate src = S at *
      generalize hD : fs.locate dst = D at *
      -- what is written for the first entry, and what for the others
      have hhead : ∀ q, fs.copiesOf (S ++ [name]) (D ++ [name]) q →
          copiesOfEntries fs S D ((name, e) :: rest) q :=
        fun q hq => ⟨(name, e), List.mem_cons_self, hq⟩
      have htail : ∀ q, copiesOfEntries fs S D rest q →
          copiesOfEntries fs S D ((name, e) :: rest) q :=
        fun q ⟨e', he', hq⟩ => ⟨e', List.mem_cons_of_mem _ he', hq⟩
      -- the copying of the others, once the first entry has been copied
      have hrest : ∀ fs1, Overlay (fs.copiesOf (S ++ [name]) (D ++ [name])) fs fs1
            ∧ Copied fs fs1 (S ++ [name]) (D ++ [name]) →
          Ends (copyEntries copyDir src dst rest) fs1
            (fun _ fs' => Overlay (copiesOfEntries fs S D ((name, e) :: rest)) fs fs'
              ∧ ∀ e' ∈ (name, e) :: rest, Copied fs fs' (S ++ [e'.1]) (D ++ [e'.1]))
            (fun _ fs' => Overlay (copiesOfEntries fs S D ((name, e) :: rest)) fs fs') := by
        rintro fs1 ⟨hover, hcopied⟩
        have hgo := ih hover.plain (by
          rw [hover.locate, hover.locate, hS, hD]
          exact hready.tail hover)
        rw [hover.locate, hover.locate, hS, hD, hready.copiesOfEntries_eq hover] at hgo
        refine hgo.mono ?_ fun _ fs' h => (hover.mono hhead).trans (h.mono htail)
        rintro _ fs' ⟨hover', hcopied'⟩
        refine ⟨(hover.mono hhead).trans (hover'.mono htail), fun e' he' => ?_⟩
        rcases List.mem_cons.1 he' with rfl | he'
        · exact hready.copied_head hcopied hover'
        · exact hready.copied_tail hover (hcopied' e' he')
      cases e with
      | dir =>
          have hgo := hcopyDir fs (src.child name) (dst.child name) hfs (by
            rw [hsrc, hdst]
            exact hapart.below)
          rw [hsrc, hdst] at hgo
          exact Ends.bind (hgo.mono (fun _ fs1 h => hrest fs1 h) fun _ _ h => h.mono hhead)
      | file b =>
          have hgo := copyFile_copies hfs (src.child name) (dst.child name)
            (by rw [hsrc]; exact hentry)
          rw [hsrc, hdst] at hgo
          exact Ends.bind (hgo.mono (fun _ fs1 h => hrest fs1 h) fun _ _ h => h.mono hhead)
      | link t => exact absurd hentry (hfs.no_link _ t)

/-! ## A tree -/

/-- The way of a copied tree: nothing is to do, or it is refused, or its new place is made and its
entries are copied. `err` holds wherever it stops. -/
theorem copyTreeTo_succ_ends (depth : Nat) (hfs : fs.Plain) (src dst : HostPath)
    {ok err : FileSystem → Prop} (hsame : src.same dst = true → ok fs)
    (hgrow : ∀ fs1, Grows fs fs1 → err fs1)
    (hentries : ∀ fs1 entries, Grows fs fs1 → fs1.readDir src = .ok entries →
      Ends (copyEntries (copyTreeTo depth) src dst entries) fs1 (fun _ => ok) (fun _ => err)) :
    Ends (copyTreeTo (depth + 1) src dst) fs (fun _ => ok) (fun _ => err) := by
  rw [copyTreeTo]
  dsimp only
  by_cases hs : src.same dst = true
  · rw [if_pos hs]
    exact hsame hs
  rw [if_neg hs]
  by_cases hinto : src.isStartOf dst = true
  · rw [if_pos hinto]
    exact hgrow fs (.refl hfs)
  rw [if_neg hinto]
  refine Ends.bind ((createDirAll_ends hfs dst).mono (fun _ fs1 h1 => ?_)
    fun _ fs1 h1 => hgrow fs1 h1)
  exact Ends.bind (ends_ask (fun entries hlist => hentries fs1 entries h1.1 hlist)
    fun _ _ => hgrow fs1 h1.1)

/-- **A tree is copied to its new place and nowhere else**, if no copy goes into the tree. -/
theorem copyTreeTo_copies (depth : Nat) : CopiesTrees (copyTreeTo depth) := by
  induction depth with
  | zero =>
      intro fs src dst hfs _
      exact FileSystem.Overlay.refl hfs
  | succ depth ih =>
      intro fs src dst hfs hapart
      refine copyTreeTo_succ_ends depth hfs src dst (fun hsame => ?_) (fun _ h1 => h1.overlay)
        fun fs1 entries hgrows hlist => ?_
      · refine ⟨.refl hfs, fun below b hb => ?_⟩
        rw [← fs.locate_eq_of_same hsame]
        exact hb
      generalize hS : fs.locate src = S at *
      generalize hD : fs.locate dst = D at *
      have hS1 : fs1.locate src = S := (hgrows.locate src).trans hS
      have hD1 : fs1.locate dst = D := (hgrows.locate dst).trans hD
      have hcopies : ∀ S' D', fs1.copiesOf S' D' = fs.copiesOf S' D' := fun S' D' =>
        FileSystem.copiesOf_congr fun _ _ => hgrows.file_iff
      have hmem : ∀ name e, (name, e) ∈ entries ↔ fs1.entryAt? (S ++ [name]) = some e := by
        intro name e
        rw [FileSystem.mem_readDir hgrows.plain hlist, hS1]
      have hready : Ready fs1 S D entries :=
        { nodup := FileSystem.nodup_readDir hgrows.plain hlist
          isName := fun e he => FileSystem.isName_of_mem_readDir hgrows.plain hlist he
          entry := fun e he => (hmem e.1 e.2).1 he
          apart := fun e _ q hq => hapart.append q (hcopies _ _ ▸ hq) }
      have hgo := copyEntries_ends ih src dst entries hgrows.plain (by rw [hS1, hD1]; exact hready)
      rw [hS1, hD1] at hgo
      have hplaces : ∀ q, copiesOfEntries fs1 S D entries q → fs.copiesOf S D q := by
        rintro q ⟨e, -, hq⟩
        rw [hcopies] at hq
        exact FileSystem.copiesOf_append hq
      refine hgo.mono ?_ fun _ _ h => hgrows.overlay.trans (h.mono hplaces)
      rintro _ fs' ⟨hover, hcopied⟩
      refine ⟨hgrows.overlay.trans (hover.mono hplaces), fun below b hb => ?_⟩
      have hb1 := hgrows.file_iff.2 hb
      cases below with
      | nil =>
          -- what is listed is a directory and no file
          have hdir := FileSystem.dir_of_readDir hgrows.plain hlist
          rw [List.append_nil, ← hS1, hdir] at hb1
          cases hb1
      | cons name below =>
          -- a file below the directory stands at or below one of the entries listed
          have hne : fs1.entryAt? (S ++ [name]) ≠ none := by
            cases below with
            | nil => rw [hb1]; simp
            | cons next below =>
                rw [show S ++ name :: next :: below = S ++ [name] ++ next :: below by simp] at hb1
                rw [FileSystem.dir_of_below (by rw [hb1]; simp)]
                simp
          obtain ⟨e, he⟩ := Option.ne_none_iff_exists'.1 hne
          have hcopy := hcopied (name, e) ((hmem name e).2 he) below b (by simpa using hb1)
          simpa using hcopy

/-- A tree is not copied to where the parts of its own path lead on. -/
theorem copyTree_refused {src dst : HostPath} (hother : src.same dst = false)
    (hinto : src.isStartOf dst = true) :
    copyTree src dst = throw (.intoItself src dst) := by
  show copyTreeTo (4095 + 1) src dst = _
  rw [copyTreeTo]
  dsimp only
  rw [if_neg (by simp [hother]), if_pos hinto]

/-- Wherever a copy goes, also into what is copied, it writes at or below its new place. -/
theorem copyEntries_below {copyDir : HostPath → HostPath → FileAction Unit}
    (hcopyDir : ∀ (fs : FileSystem) (src dst : HostPath), fs.Plain →
      Ends (copyDir src dst) fs (fun _ fs' => Overlay (fs.locate dst <+: ·) fs fs')
        (fun _ fs' => Overlay (fs.locate dst <+: ·) fs fs'))
    (src dst : HostPath) (entries : List (String × Entry)) (hfs : fs.Plain)
    (hnames : ∀ e ∈ entries, IsName e.1) :
    Ends (copyEntries copyDir src dst entries) fs
      (fun _ fs' => Overlay (fs.locate dst <+: ·) fs fs')
      (fun _ fs' => Overlay (fs.locate dst <+: ·) fs fs') := by
  induction entries generalizing fs with
  | nil => exact FileSystem.Overlay.refl hfs
  | cons entry rest ih =>
      obtain ⟨name, e⟩ := entry
      have hplace := fs.locate_child dst (hnames (name, e) List.mem_cons_self).toIsPart
      have hbelow : ∀ q, fs.locate (dst.child name) <+: q → fs.locate dst <+: q := by
        intro q hq
        rw [hplace] at hq
        exact (List.prefix_append _ _).trans hq
      -- the induction hypothesis holds of every tree, that of the first copy included
      have hrest : ∀ fs1, Overlay (fs.locate dst <+: ·) fs fs1 →
          Ends (copyEntries copyDir src dst rest) fs1
            (fun _ fs' => Overlay (fs.locate dst <+: ·) fs fs')
            (fun _ fs' => Overlay (fs.locate dst <+: ·) fs fs') := by
        intro fs1 h1
        have hgo := ih h1.plain fun e he => hnames e (List.mem_cons_of_mem _ he)
        rw [h1.locate] at hgo
        exact hgo.mono (fun _ _ h => h1.trans h) fun _ _ h => h1.trans h
      have hfile := (copyFile_ends hfs (src.child name) (dst.child name)).mono
        (fun _ fs1 h => h.1.mono fun q hq => hbelow q (hq ▸ List.prefix_rfl))
        fun _ _ h => h.mono fun q hq => hbelow q (hq ▸ List.prefix_rfl)
      cases e with
      | dir =>
          exact Ends.bind ((hcopyDir fs _ _ hfs).mono (fun _ fs1 h => hrest fs1 (h.mono hbelow))
            fun _ _ h => h.mono hbelow)
      | file b => exact Ends.bind (hfile.mono (fun _ fs1 h => hrest fs1 h) fun _ _ h => h)
      | link t => exact Ends.bind (hfile.mono (fun _ fs1 h => hrest fs1 h) fun _ _ h => h)

theorem copyTreeTo_below (depth : Nat) (hfs : fs.Plain) (src dst : HostPath) :
    Ends (copyTreeTo depth src dst) fs (fun _ fs' => Overlay (fs.locate dst <+: ·) fs fs')
      (fun _ fs' => Overlay (fs.locate dst <+: ·) fs fs') := by
  induction depth generalizing fs src dst with
  | zero => exact FileSystem.Overlay.refl hfs
  | succ depth ih =>
      refine copyTreeTo_succ_ends depth hfs src dst (fun _ => .refl hfs) (fun _ h1 => h1.overlay)
        fun fs1 entries h1 hlist => ?_
      have hgo := copyEntries_below (fun fs src dst hfs => ih hfs src dst) src dst entries
        h1.plain fun e he => FileSystem.isName_of_mem_readDir h1.plain hlist he
      rw [h1.locate] at hgo
      exact hgo.mono (fun _ _ h => h1.overlay.trans h) fun _ _ h => h1.overlay.trans h

end FileAction

end PackageScript
