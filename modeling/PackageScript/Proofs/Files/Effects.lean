import PackageScript.Files.Basic
import PackageScript.Proofs.Files.Queries

set_option autoImplicit false

/-! # What a change leaves alone

Two relations bound what an action may have done to a tree without links. After an overlay
(`Overlay W`) every directory is still there, and away from the places in `W` nothing happened
but that directories were made where nothing stood. After a pruning (`Prunes top`) nothing
happened but that places at or below `top` were emptied. Both hold of doing nothing and of one
change after another, so that an action made of many is bounded by its parts.
-/

namespace PackageScript

namespace FileSystem

variable {fs fs' fs'' : FileSystem} {place : Place}

/-! ## Putting and taking one entry -/

/-- A node without entries that is put into a directory changes what stands under its name and
nothing else. -/
theorem entryAt?_put_of_dir {v : Node} (hv : v.entries = []) {dir : Place} {name : String}
    (hdir : fs.entryAt? dir = some .dir) (hnot : fs.entryAt? (dir ++ [name]) ≠ some .dir)
    (q : Place) :
    (fs.root.put (dir ++ [name]) v).entryAt? q
      = if q = dir ++ [name] then some v.entry else fs.entryAt? q := by
  by_cases hbelow : dir ++ [name] <+: q
  · obtain ⟨below, rfl⟩ := hbelow
    obtain ⟨es, hes⟩ := entryAt?_eq_dir_iff.1 hdir
    rw [Node.entryAt?, List.append_assoc, List.singleton_append, Node.get?_put_append hes]
    -- below the name nothing stood, and below a node without entries nothing stands
    cases below with
    | nil => simp
    | cons next below =>
        have hnone : fs.entryAt? (dir ++ name :: next :: below) = none := by
          apply Decidable.byContradiction
          intro hne
          rw [show dir ++ name :: next :: below = (dir ++ [name]) ++ next :: below by simp] at hne
          exact hnot (dir_of_below hne)
        rw [if_neg (by simp), hnone, Node.get?_cons, Node.child?, hv]
        rfl
  · have hne : q ≠ dir ++ [name] := fun h => hbelow (h ▸ List.prefix_rfl)
    rw [if_neg hne, Node.entryAt?_put_of_not_below v hbelow]
    rfl

theorem entryAt?_put {v : Node} (hv : v.entries = []) (hslot : fs.Slot place)
    (hnot : fs.entryAt? place ≠ some .dir) (q : Place) :
    (fs.root.put place v).entryAt? q = if q = place then some v.entry else fs.entryAt? q := by
  obtain @⟨dir, name, hdir, -⟩ := hslot
  exact entryAt?_put_of_dir hv hdir hnot q

theorem entryAt?_setFile (hslot : fs.Slot place) (hnot : fs.entryAt? place ≠ some .dir)
    (b : ByteArray) (q : Place) :
    (fs.setFile place b).entryAt? q = if q = place then some (.file b) else fs.entryAt? q :=
  entryAt?_put rfl hslot hnot q

theorem entryAt?_setDir (hslot : fs.Slot place) (hnone : fs.entryAt? place = none) (q : Place) :
    (fs.setDir place).entryAt? q = if q = place then some .dir else fs.entryAt? q :=
  entryAt?_put rfl hslot (by rw [hnone]; simp) q

theorem entryAt?_erase_below (fs : FileSystem) (dir : Place) (name : String) (q : Place) :
    (fs.erase (dir ++ [name])).entryAt? q
      = if dir ++ [name] <+: q then none else fs.entryAt? q := by
  by_cases hbelow : dir ++ [name] <+: q
  · obtain ⟨below, rfl⟩ := hbelow
    rw [if_pos (List.prefix_append _ _), entryAt?, erase, Node.entryAt?, List.append_assoc,
      List.singleton_append, Node.get?_erase_append, Option.map_none]
  · rw [if_neg hbelow]
    exact Node.entryAt?_erase_of_not_below hbelow

theorem entryAt?_erase (hslot : fs.Slot place) (q : Place) :
    (fs.erase place).entryAt? q = if place <+: q then none else fs.entryAt? q := by
  obtain @⟨dir, name, -, -⟩ := hslot
  exact entryAt?_erase_below fs dir name q

theorem Plain.of_put (hfs : fs.Plain) {e : Entry} (he : ∀ t, e ≠ .link t) (hslot : fs.Slot place)
    (hentry : ∀ q, fs'.entryAt? q = if q = place then some e else fs.entryAt? q) :
    fs'.Plain := by
  obtain @⟨dir, name, -, hname⟩ := hslot
  refine ⟨fun q t => ?_, fun q n h => ?_⟩
  · rw [hentry q]
    split
    · exact fun h => he t (Option.some.inj h)
    · exact hfs.no_link q t
  · rw [hentry] at h
    split at h
    · next heq =>
        have hn : n = name := List.singleton_inj.1 (List.append_inj' heq rfl).2
        exact hn ▸ hname
    · exact hfs.isName q n h

theorem Plain.of_prune (hfs : fs.Plain)
    (hentry : ∀ q, fs'.entryAt? q = fs.entryAt? q ∨ fs'.entryAt? q = none) : fs'.Plain := by
  refine ⟨fun q t => ?_, fun q n h => ?_⟩
  · rcases hentry q with heq | hnone
    · rw [heq]
      exact hfs.no_link q t
    · rw [hnone]
      simp
  · rcases hentry (q ++ [n]) with heq | hnone
    · rw [heq] at h
      exact hfs.isName q n h
    · exact absurd hnone h

theorem plain_empty : (empty []).Plain := by
  have hentry : ∀ q name, (empty []).entryAt? (q ++ [name]) = none := by
    intro q name
    cases q <;> rfl
  refine ⟨fun q t h => ?_, fun q n h => absurd (hentry q n) h⟩
  rcases List.eq_nil_or_concat q with rfl | ⟨q, name, rfl⟩
  · cases h
  · rw [List.concat_eq_append, hentry] at h
    cases h

/-! ## Overlays -/

/-- **A change that removes no directory and is confined to given places**: elsewhere nothing
happens but that directories appear where nothing stood. -/
structure Overlay (W : Place → Prop) (fs fs' : FileSystem) : Prop where
  plain : fs'.Plain
  home : fs'.home = fs.home
  dirs : ∀ q, fs.entryAt? q = some .dir → fs'.entryAt? q = some .dir
  rest : ∀ q, ¬ W q → fs'.entryAt? q = fs.entryAt? q
    ∨ fs.entryAt? q = none ∧ fs'.entryAt? q = some .dir

namespace Overlay

variable {W W' : Place → Prop}

theorem refl (hfs : fs.Plain) : Overlay W fs fs := ⟨hfs, rfl, fun _ h => h, fun _ _ => Or.inl rfl⟩

theorem trans (h : Overlay W fs fs') (h' : Overlay W fs' fs'') : Overlay W fs fs'' where
  plain := h'.plain
  home := h'.home.trans h.home
  dirs q hq := h'.dirs q (h.dirs q hq)
  rest q hq := by
    rcases h.rest q hq with heq | ⟨hnone, hdir⟩
    · rw [← heq]
      exact h'.rest q hq
    · exact Or.inr ⟨hnone, h'.dirs q hdir⟩

theorem mono (h : Overlay W fs fs') (hW : ∀ q, W q → W' q) : Overlay W' fs fs' :=
  ⟨h.plain, h.home, h.dirs, fun q hq => h.rest q fun hw => hq (hW q hw)⟩

theorem file_iff (h : Overlay W fs fs') {q : Place} (hq : ¬ W q) {b : ByteArray} :
    fs'.entryAt? q = some (.file b) ↔ fs.entryAt? q = some (.file b) := by
  rcases h.rest q hq with heq | ⟨hnone, hdir⟩
  · rw [heq]
  · rw [hnone, hdir]
    exact ⟨fun h => (by cases h), fun h => (by cases h)⟩

theorem locate (h : Overlay W fs fs') (p : HostPath) : fs'.locate p = fs.locate p :=
  locate_congr h.home p

theorem leads (h : Overlay W fs fs') {p : HostPath} (hp : fs.Leads p) : fs'.Leads p :=
  hp.mono h.home h.dirs

theorem setDir (hfs : fs.Plain) (hslot : fs.Slot place) (hnone : fs.entryAt? place = none) :
    Overlay W fs (fs.setDir place) := by
  have hentry := entryAt?_setDir hslot hnone
  refine ⟨hfs.of_put (fun t => by simp) hslot hentry, rfl, fun q hq => ?_, fun q _ => ?_⟩
  · rw [hentry q, hq]
    split <;> rfl
  · rw [hentry q]
    split
    · next heq => exact Or.inr ⟨heq ▸ hnone, rfl⟩
    · exact Or.inl rfl

theorem setFile (hfs : fs.Plain) (hslot : fs.Slot place) (hnot : fs.entryAt? place ≠ some .dir)
    (hW : W place) (b : ByteArray) : Overlay W fs (fs.setFile place b) := by
  have hentry := entryAt?_setFile hslot hnot b
  refine ⟨hfs.of_put (fun t => by simp) hslot hentry, rfl, fun q hq => ?_, fun q hq => ?_⟩
  · have hne : q ≠ place := by
      rintro rfl
      exact hnot hq
    rw [hentry q, if_neg hne]
    exact hq
  · have hne : q ≠ place := by
      rintro rfl
      exact hq hW
    rw [hentry q, if_neg hne]
    exact Or.inl rfl

theorem eraseFile (hfs : fs.Plain) (hslot : fs.Slot place) {b : ByteArray}
    (hfile : fs.entryAt? place = some (.file b)) (hW : W place) :
    Overlay W fs (fs.erase place) := by
  have hentry := entryAt?_erase hslot
  -- below a file nothing stands, so that the erasure takes the file alone
  have honly : ∀ q, place <+: q → fs.entryAt? q ≠ none → q = place := by
    rintro _ ⟨below, rfl⟩ hne
    rw [eq_nil_of_below_file hfile hne, List.append_nil]
  refine ⟨hfs.of_prune fun q => ?_, rfl, fun q hq => ?_, fun q hq => ?_⟩
  · rw [hentry q]
    split
    · exact Or.inr rfl
    · exact Or.inl rfl
  · have hnot : ¬ place <+: q := by
      intro hp
      rw [honly q hp (by rw [hq]; simp), hfile] at hq
      cases hq
    rw [hentry q, if_neg hnot]
    exact hq
  · left
    rw [hentry q]
    split
    · next hp =>
        apply Decidable.byContradiction
        intro hne
        exact hq (honly q hp (fun h => hne h.symm) ▸ hW)
    · rfl

end Overlay

theorem Plain.setDir (hfs : fs.Plain) {dir : Place} {name : String}
    (hdir : fs.entryAt? dir = some .dir) (hname : IsName name)
    (hnone : fs.entryAt? (dir ++ [name]) = none) : (fs.setDir (dir ++ [name])).Plain :=
  (Overlay.setDir hfs ⟨hdir, hname⟩ hnone : Overlay (fun _ => True) fs _).plain

theorem Plain.setFile (hfs : fs.Plain) {dir : Place} {name : String}
    (hdir : fs.entryAt? dir = some .dir) (hname : IsName name)
    (hnot : fs.entryAt? (dir ++ [name]) ≠ some .dir) (b : ByteArray) :
    (fs.setFile (dir ++ [name]) b).Plain :=
  (Overlay.setFile hfs ⟨hdir, hname⟩ hnot trivial b : Overlay (fun _ => True) fs _).plain

/-! ## Prunings -/

/-- **A change that only takes away, and only at or below a place.** -/
structure Prunes (top : Place) (fs fs' : FileSystem) : Prop where
  plain : fs'.Plain
  home : fs'.home = fs.home
  entry : ∀ q, fs'.entryAt? q = fs.entryAt? q ∨ top <+: q ∧ fs'.entryAt? q = none

namespace Prunes

variable {top top' : Place}

theorem refl (hfs : fs.Plain) : Prunes top fs fs := ⟨hfs, rfl, fun _ => Or.inl rfl⟩

theorem trans (h : Prunes top fs fs') (h' : Prunes top fs' fs'') : Prunes top fs fs'' where
  plain := h'.plain
  home := h'.home.trans h.home
  entry q := by
    rcases h'.entry q with heq | hgone
    · rw [heq]
      exact h.entry q
    · exact Or.inr hgone

theorem mono (h : Prunes top fs fs') (htop : top' <+: top) : Prunes top' fs fs' :=
  ⟨h.plain, h.home, fun q => (h.entry q).imp id fun hq => ⟨htop.trans hq.1, hq.2⟩⟩

theorem locate (h : Prunes top fs fs') (p : HostPath) : fs'.locate p = fs.locate p :=
  locate_congr h.home p

theorem entry_of_not_below (h : Prunes top fs fs') {q : Place} (hq : ¬ top <+: q) :
    fs'.entryAt? q = fs.entryAt? q :=
  (h.entry q).resolve_right fun hgone => hq hgone.1

theorem erase (hfs : fs.Plain) (hslot : fs.Slot place) : Prunes place fs (fs.erase place) := by
  have hentry := entryAt?_erase hslot
  refine ⟨hfs.of_prune fun q => ?_, rfl, fun q => ?_⟩ <;> rw [hentry q] <;> split
  · exact Or.inr rfl
  · exact Or.inl rfl
  · next hp => exact Or.inr ⟨hp, rfl⟩
  · exact Or.inl rfl

end Prunes

end FileSystem

end PackageScript
