import PackageScript.Proofs.Files.Effects

set_option autoImplicit false

/-! # Single operations in a tree without links

`FileAction.Ends` says of an action what holds when it returns and what holds when it fails,
the state it leaves behind included. An action made of many is followed with `Ends.bind`, one
step at a time. Each single operation has one statement here: it fails and changes nothing, or
it returns, and then it has put or taken one entry at the place that its path spells, where
before there was what the operation asks for.
-/

namespace PackageScript

namespace FileAction

variable {α β : Type} {act : FileAction α} {fs fs' : FileSystem}
variable {ok ok' : α → FileSystem → Prop} {err err' : FileError → FileSystem → Prop}

/-! ## How an action ends -/

/-- **How an action ends**: with a value and a file system of which `ok` holds, or with a cause
and a file system of which `err` holds. -/
def Ends (act : FileAction α) (fs : FileSystem) (ok : α → FileSystem → Prop)
    (err : FileError → FileSystem → Prop) : Prop :=
  match act fs with
  | .ok a fs' => ok a fs'
  | .error e fs' => err e fs'

theorem Ends.of_ok {a : α} (h : Ends act fs ok err) (hrun : act fs = .ok a fs') : ok a fs' := by
  rw [Ends, hrun] at h
  exact h

theorem Ends.of_error {e : FileError} (h : Ends act fs ok err) (hrun : act fs = .error e fs') :
    err e fs' := by
  rw [Ends, hrun] at h
  exact h

theorem ends_of_ok {a : α} (hrun : act fs = .ok a fs') (h : ok a fs') : Ends act fs ok err := by
  rw [Ends, hrun]
  exact h

theorem ends_of_error {e : FileError} (hrun : act fs = .error e fs') (h : err e fs') :
    Ends act fs ok err := by
  rw [Ends, hrun]
  exact h

theorem Ends.mono (h : Ends act fs ok err) (hok : ∀ a fs', ok a fs' → ok' a fs')
    (herr : ∀ e fs', err e fs' → err' e fs') : Ends act fs ok' err' := by
  rw [Ends] at h ⊢
  cases hrun : act fs with
  | ok a fs' => rw [hrun] at h; exact hok a fs' h
  | error e fs' => rw [hrun] at h; exact herr e fs' h

def returns (act : FileAction α) (fs : FileSystem) : Bool :=
  match act fs with
  | .ok _ _ => true
  | .error _ _ => false

theorem returns_iff : returns act fs = true ↔ ∃ a fs', act fs = .ok a fs' := by
  rw [returns]
  cases act fs with
  | ok a fs' => exact ⟨fun _ => ⟨a, fs', rfl⟩, fun _ => rfl⟩
  | error e fs' =>
      refine ⟨fun h => (by cases h), ?_⟩
      rintro ⟨a, fs1, h⟩
      cases h

theorem fails_iff : returns act fs = false ↔ ∃ e fs', act fs = .error e fs' := by
  rw [returns]
  cases act fs with
  | ok a fs' =>
      refine ⟨fun h => (by cases h), ?_⟩
      rintro ⟨e, fs1, h⟩
      cases h
  | error e fs' => exact ⟨fun _ => ⟨e, fs', rfl⟩, fun _ => rfl⟩

theorem Ends.bind {next : α → FileAction β} {okNext : β → FileSystem → Prop}
    (h : Ends act fs (fun a fs' => Ends (next a) fs' okNext err) err) :
    Ends (act >>= next) fs okNext err := by
  rw [Ends] at h ⊢
  show match EStateM.bind act next fs with | .ok a fs' => _ | .error e fs' => _
  rw [EStateM.bind]
  cases hrun : act fs with
  | ok a fs' => rw [hrun] at h; exact h
  | error e fs' => rw [hrun] at h; exact h

theorem bind_of_ok {next : α → FileAction β} {a : α} (h : act fs = .ok a fs') :
    (act >>= next) fs = next a fs' := by
  show EStateM.bind act next fs = _
  rw [EStateM.bind, h]

theorem bind_eq_ok_iff {next : α → FileAction β} {b : β} :
    (act >>= next) fs = .ok b fs' ↔ ∃ a fs1, act fs = .ok a fs1 ∧ next a fs1 = .ok b fs' := by
  show EStateM.bind act next fs = .ok b fs' ↔ _
  rw [EStateM.bind]
  cases act fs with
  | ok a fs1 =>
      constructor
      · exact fun h => ⟨a, fs1, rfl, h⟩
      · rintro ⟨a', fs2, heq, h⟩
        cases heq
        exact h
  | error e fs1 =>
      constructor
      · intro h
        cases h
      · rintro ⟨a', fs2, heq, -⟩
        cases heq

theorem ask_eq_ok_iff {question : FileSystem → Except FileError α} {a : α} :
    ask question fs = .ok a fs' ↔ question fs = .ok a ∧ fs' = fs := by
  rw [ask]
  cases question fs with
  | ok a' =>
      constructor
      · intro h
        cases h
        exact ⟨rfl, rfl⟩
      · rintro ⟨h, rfl⟩
        cases h
        rfl
  | error e =>
      constructor
      · intro h
        cases h
      · rintro ⟨h, -⟩
        cases h

theorem ends_ask {question : FileSystem → Except FileError α}
    (hok : ∀ a, question fs = .ok a → ok a fs) (herr : ∀ e, question fs = .error e → err e fs) :
    Ends (ask question) fs ok err := by
  rw [Ends, ask]
  cases hq : question fs with
  | ok a => exact hok a hq
  | error e => exact herr e hq

theorem ends_look {question : FileSystem → α} (h : ok (question fs) fs) :
    Ends (look question) fs ok err := h

/-! ## Directories -/

variable {p : HostPath}

theorem isDirAt_iff {place : Place} :
    fs.isDirAt place = true ↔ fs.entryAt? place = some .dir := by
  rw [FileSystem.isDirAt, FileSystem.entryAt?_eq_map]
  cases fs.node? place with
  | none => simp
  | some n => cases n <;> simp [Node.isDir, Node.entry]

theorem makeDir_makes (p : HostPath) :
    Ends (makeDir p) fs
      (fun _ fs' => ∃ spot, fs.resolve .never p = .ok spot ∧ fs.entryAt? spot.place = none
        ∧ fs' = fs.setDir spot.place)
      (fun _ fs' => fs' = fs) := by
  rw [Ends, makeDir]
  cases hresolve : fs.resolve .never p with
  | error e => exact rfl
  | ok spot =>
      dsimp only
      cases hnode : fs.node? spot.place with
      | some n => exact rfl
      | none => exact ⟨spot, rfl, FileSystem.entryAt?_eq_none_iff.2 hnode, rfl⟩

theorem makeDir_ends (hfs : fs.Plain) (p : HostPath) :
    Ends (makeDir p) fs
      (fun _ fs' => fs.Slot (fs.locate p) ∧ fs.entryAt? (fs.locate p) = none
        ∧ fs' = fs.setDir (fs.locate p))
      (fun _ fs' => fs' = fs) := by
  refine (makeDir_makes p).mono ?_ fun _ _ h => h
  rintro _ _ ⟨spot, hres, hnone, rfl⟩
  obtain ⟨hleads, rfl⟩ := (FileSystem.resolve_eq_ok_iff hfs).1 hres
  exact ⟨hleads.slot hfs (by rw [hnone]; simp), hnone, rfl⟩

theorem makeDir_eq_ok_iff (hfs : fs.Plain) :
    makeDir p fs = .ok () fs'
      ↔ fs.Leads p ∧ fs.entryAt? (fs.locate p) = none ∧ fs' = fs.setDir (fs.locate p) := by
  constructor
  · intro h
    obtain ⟨spot, hres, hnone, rfl⟩ := (makeDir_makes p).of_ok h
    obtain ⟨hleads, rfl⟩ := (FileSystem.resolve_eq_ok_iff hfs).1 hres
    exact ⟨hleads, hnone, rfl⟩
  · rintro ⟨hleads, hnone, rfl⟩
    rw [makeDir, FileSystem.resolve_eq_ok hfs hleads]
    dsimp only
    rw [FileSystem.entryAt?_eq_none_iff.1 hnone]

theorem makeDir_of_isDir (hfs : fs.Plain) (h : fs.isDir p = true) :
    makeDir p fs = .error .alreadyExists fs := by
  obtain ⟨hleads, hdir⟩ := (FileSystem.isDir_iff hfs).1 h
  obtain ⟨es, hes⟩ := FileSystem.entryAt?_eq_dir_iff.1 hdir
  rw [makeDir, FileSystem.resolve_eq_ok hfs hleads]
  dsimp only
  rw [hes]

/-- A directory is removed only under a path that ends in its name. -/
theorem removeDir_ends (hfs : fs.Plain) (p : HostPath) :
    Ends (removeDir p) fs
      (fun _ fs' => fs.Slot (fs.locate p) ∧ fs.entryAt? (fs.locate p) = some .dir
        ∧ fs' = fs.erase (fs.locate p))
      (fun _ fs' => fs' = fs) := by
  unfold Ends
  cases hrun : removeDir p fs with
  | error e fs' =>
      -- no way to fail has changed anything
      unfold removeDir at hrun
      repeat' split at hrun
      all_goals cases hrun
      all_goals rfl
  | ok a fs' =>
      unfold removeDir at hrun
      split at hrun
      · cases hrun
      · next spot hres =>
          obtain ⟨-, rfl⟩ := (FileSystem.resolve_eq_ok_iff hfs).1 hres
          split at hrun
          · cases hrun
          · cases hrun
          · cases hrun
          · next name hdot hdots hlast =>
              split at hrun
              · cases hrun
              · next hnode =>
                  cases hrun
                  have hdir := FileSystem.entryAt?_eq_dir_iff.2 ⟨_, hnode⟩
                  refine ⟨?_, hdir, rfl⟩
                  -- the path ends in a name, so what it spells is not the root
                  obtain ⟨init, hsteps⟩ := List.getLast?_eq_some_iff.1 hlast
                  have hplace : fs.locate p
                      = init.foldl Place.step (fs.origin p) ++ [name] := by
                    rw [FileSystem.locate, hsteps, List.foldl_append, List.foldl_cons,
                      List.foldl_nil, Place.step, if_neg hdot, if_neg hdots]
                  have hne : fs.entryAt? (fs.locate p) ≠ none := by
                    dsimp only at hdir
                    rw [hdir]
                    simp
                  rw [hplace] at hne ⊢
                  exact ⟨FileSystem.dir_of_below hne, hfs.isName _ _ hne⟩
              · cases hrun
              · cases hrun

/-- An empty directory is removed under a path that ends in its name. -/
theorem removeDir_eq_ok (hfs : fs.Plain) {name : String} (hname : IsPart name)
    (h : fs.readDir (p.child name) = .ok []) :
    removeDir (p.child name) fs = .ok () (fs.erase (fs.locate (p.child name))) := by
  obtain ⟨hleads, es, hes, hnil⟩ := FileSystem.readDir_eq_ok hfs h
  obtain rfl : es = [] := List.map_eq_nil_iff.1 hnil.symm
  have hlast : (p.child name).steps.getLast? = some name := by
    rw [HostPath.steps_child p hname.toIsSegment, List.getLast?_concat]
  rw [removeDir, FileSystem.resolve_eq_ok hfs hleads, hlast]
  dsimp only
  split
  · next heq => cases heq
  · next heq => exact absurd (Option.some.inj heq) hname.ne_dot
  · next heq => exact absurd (Option.some.inj heq) hname.ne_dots
  · rw [hes]

/-! ## Files -/

theorem removeFile_ends (hfs : fs.Plain) (p : HostPath) :
    Ends (removeFile p) fs
      (fun _ fs' => fs.isFile p = true ∧ fs' = fs.erase (fs.locate p)) (fun _ fs' => fs' = fs) := by
  unfold Ends
  cases hrun : removeFile p fs with
  | error e fs' =>
      -- every failure comes before the removal
      unfold removeFile at hrun
      repeat' split at hrun
      all_goals cases hrun
      all_goals rfl
  | ok a fs' =>
      unfold removeFile at hrun
      split at hrun
      · cases hrun
      · next spot hres =>
          obtain ⟨hleads, rfl⟩ := (FileSystem.resolve_eq_ok_iff hfs).1 hres
          split at hrun
          · cases hrun
          · cases hrun
          · next node hnotDir hnode =>
              split at hrun
              · cases hrun
              · next hslash =>
                  cases hrun
                  have hentry : fs.entryAt? (fs.locate p) = some node.entry := by
                    rw [FileSystem.entryAt?_eq_map]
                    dsimp only at hnode
                    rw [hnode, Option.map_some]
                  have hfile : ∃ b, fs.entryAt? (fs.locate p) = some (.file b) := by
                    cases node with
                    | dir es => exact absurd rfl (hnotDir es)
                    | file b => exact ⟨b, hentry⟩
                    | link t => exact absurd hentry (hfs.no_link _ t)
                  exact ⟨(FileSystem.isFile_iff hfs).2
                    ⟨hleads, Bool.eq_false_iff.2 hslash, hfile⟩, rfl⟩

theorem removeFile_eq_ok (hfs : fs.Plain) (h : fs.isFile p = true) :
    removeFile p fs = .ok () (fs.erase (fs.locate p)) := by
  obtain ⟨hleads, hslash, b, hb⟩ := (FileSystem.isFile_iff hfs).1 h
  rw [removeFile, FileSystem.resolve_eq_ok hfs hleads]
  dsimp only
  rw [FileSystem.entryAt?_eq_file_iff.1 hb]
  dsimp only
  rw [if_neg (by simp [hslash])]

/-- A place to write to is one where a path without a slash at its end leads when links are
followed, and where no directory stands. -/
theorem writePlace_eq_ok_iff_resolve {place : Place} :
    writePlace p fs = .ok place
      ↔ p.endsWithSlash = false ∧ (∃ spot, fs.resolve .never p = .ok spot)
        ∧ fs.resolve .always p = .ok ⟨place, false⟩ ∧ fs.entryAt? place ≠ some .dir := by
  constructor
  · intro h
    unfold writePlace at h
    split at h
    · cases h
    · next spot hnever =>
        split at h
        · cases h
        · next hslash =>
            split at h
            · cases h
            · next end' halways =>
                obtain ⟨place', slash⟩ := end'
                split at h
                · cases h
                · next hfile =>
                    cases h
                    rw [Bool.or_eq_true, not_or] at hfile
                    obtain rfl : slash = false := Bool.eq_false_iff.2 hfile.1
                    exact ⟨Bool.eq_false_iff.2 hslash, ⟨spot, hnever⟩, halways,
                      fun hdir => hfile.2 (isDirAt_iff.2 hdir)⟩
  · rintro ⟨hslash, ⟨spot, hnever⟩, halways, hnot⟩
    have hdir : fs.isDirAt place = false := by
      rw [Bool.eq_false_iff]
      exact fun hdir => hnot (isDirAt_iff.1 hdir)
    rw [writePlace, hnever, halways]
    dsimp only
    rw [hslash, hdir, if_neg (by simp), if_neg (by simp)]

/-- A place to write to is one where no directory stands, under a path without a slash at its
end. -/
theorem writePlace_eq_ok_iff (hfs : fs.Plain) {place : Place} :
    writePlace p fs = .ok place
      ↔ fs.Leads p ∧ p.endsWithSlash = false ∧ place = fs.locate p
        ∧ fs.entryAt? place ≠ some .dir := by
  rw [writePlace_eq_ok_iff_resolve]
  constructor
  · rintro ⟨hslash, ⟨spot, hnever⟩, halways, hnot⟩
    obtain ⟨hleads, -⟩ := (FileSystem.resolve_eq_ok_iff hfs).1 hnever
    rw [FileSystem.resolve_eq_ok hfs hleads, hslash] at halways
    cases halways
    exact ⟨hleads, hslash, rfl, hnot⟩
  · rintro ⟨hleads, hslash, rfl, hnot⟩
    refine ⟨hslash, ⟨_, FileSystem.resolve_eq_ok hfs hleads⟩, ?_, hnot⟩
    rw [FileSystem.resolve_eq_ok hfs hleads, hslash]

theorem createFile_ends (hfs : fs.Plain) (p : HostPath) :
    Ends (createFile p) fs
      (fun place fs' => place = fs.locate p ∧ fs.Slot place ∧ fs.entryAt? place ≠ some .dir
        ∧ fs' = fs.setFile place .empty)
      (fun _ fs' => fs' = fs) := by
  rw [Ends, createFile]
  cases hplace : writePlace p fs with
  | error e => exact rfl
  | ok place =>
      obtain ⟨hleads, -, rfl, hnot⟩ := (writePlace_eq_ok_iff hfs).1 hplace
      exact ⟨rfl, hleads.slot hfs hnot, hnot, rfl⟩

/-- A rename that succeeds moves a file to a place where no directory stands. -/
theorem rename_ends (hfs : fs.Plain) (old new : HostPath) :
    Ends (rename old new) fs
      (fun _ fs' => fs.Leads old ∧ fs.Leads new ∧ fs.entryAt? (fs.locate new) ≠ some .dir
        ∧ ∃ b, fs.entryAt? (fs.locate old) = some (.file b)
          ∧ (fs.locate new = fs.locate old ∧ fs' = fs
            ∨ fs.locate new ≠ fs.locate old
              ∧ fs' = (fs.erase (fs.locate old)).setFile (fs.locate new) b))
      (fun _ fs' => fs' = fs) := by
  unfold Ends
  cases hrun : rename old new fs with
  | error e fs' =>
      unfold rename at hrun
      repeat' split at hrun
      all_goals cases hrun
      all_goals rfl
  | ok a fs' =>
      unfold rename at hrun
      split at hrun
      · cases hrun
      · next source hsource =>
          obtain ⟨hold, rfl⟩ := (FileSystem.resolve_eq_ok_iff hfs).1 hsource
          split at hrun
          · cases hrun
          · next target htarget =>
              obtain ⟨hnew, rfl⟩ := (FileSystem.resolve_eq_ok_iff hfs).1 htarget
              split at hrun
              · cases hrun
              dsimp only at hrun
              split at hrun
              · cases hrun
              · cases hrun
              · next node hnotDir hnode =>
                  split at hrun
                  · cases hrun
                  -- a file does not take the place of a directory
                  split at hrun
                  · repeat' split at hrun
                    all_goals cases hrun
                  · next hdir =>
                      have hnot : fs.entryAt? (fs.locate new) ≠ some .dir := fun hd =>
                        hdir (isDirAt_iff.2 hd)
                      refine ⟨hold, hnew, hnot, ?_⟩
                      have hentry : fs.entryAt? (fs.locate old) = some node.entry := by
                        rw [FileSystem.entryAt?_eq_map, hnode, Option.map_some]
                      cases node with
                      | dir es => exact absurd rfl (hnotDir es)
                      | link t => exact absurd hentry (hfs.no_link _ t)
                      | file b =>
                          refine ⟨b, hentry, ?_⟩
                          split at hrun
                          · next heq =>
                              cases hrun
                              exact Or.inl ⟨heq, rfl⟩
                          · next hne =>
                              cases hrun
                              exact Or.inr ⟨hne, rfl⟩

end FileAction

end PackageScript
