import PackageScript.Proofs.Files.Aliases

set_option autoImplicit false

/-! # Making directories where there are links

Making a directory fills a place where nothing stood, and so does writing a new file
(`FileSystem.Fills`). That turns no way elsewhere: what the way goes by still stands there, and at
its end there is at most something where there was nothing. So a path that leads somewhere goes on
leading there. Of the directories that are made around a path it follows that they lie on the way of
the path, however much is made after them (`FileSystem.MadeAlong`). If they cannot be made, the path
leads nowhere (`FileAction.ensureParent_along`), and if it leads somewhere, none has to be made
(`FileAction.ensureParent_of_resolve`).
-/

namespace PackageScript

namespace FileSystem

variable {fs fs' fs'' : FileSystem} {p dst : HostPath} {place : Place} {mode : Follow}
variable {spot : Spot}

/-! ## Filling places -/

/-- **A change that only fills places where nothing stood**, and not with links. -/
structure Fills (fs fs' : FileSystem) : Prop where
  home : fs'.home = fs.home
  entry : ∀ q, fs'.entryAt? q = fs.entryAt? q
    ∨ fs.entryAt? q = none ∧ ∀ target, fs'.entryAt? q ≠ some (.link target)

namespace Fills

theorem of_put {e : Entry} (hhome : fs'.home = fs.home) (he : ∀ target, e ≠ .link target)
    (hnone : fs.entryAt? place = none)
    (hentry : ∀ q, fs'.entryAt? q = if q = place then some e else fs.entryAt? q) :
    Fills fs fs' := by
  refine ⟨hhome, fun q => ?_⟩
  rw [hentry q]
  split
  · next heq =>
      rw [heq]
      exact Or.inr ⟨hnone, fun target h => he target (Option.some.inj h)⟩
  · exact Or.inl rfl

theorem eq_some (h : Fills fs fs') {q : Place} {e : Entry} (hq : fs.entryAt? q = some e) :
    fs'.entryAt? q = some e := by
  rcases h.entry q with heq | ⟨hnone, -⟩
  · rw [heq, hq]
  · rw [hq] at hnone
    cases hnone

theorem no_link (h : Fills fs fs') {q : Place}
    (hq : ∀ target, fs.entryAt? q ≠ some (.link target)) (target : String) :
    fs'.entryAt? q ≠ some (.link target) := by
  rcases h.entry q with heq | ⟨-, hnolink⟩
  · rw [heq]
    exact hq target
  · exact hnolink target

/-- **Every way that arrives still does**, at the same place. -/
theorem walks (h : Fills fs fs') {follow slash : Bool} {links : Nat} {names : List String}
    (hway : fs.Walks follow links slash place names spot) :
    fs'.Walks follow links slash place names spot := by
  induction hway with
  | here => exact .here
  | dot hname _ ih => exact .dot hname ih
  | dots hname _ ih => exact .dots hname ih
  | dir hstep hdir _ ih => exact .dir hstep (h.eq_some hdir) ih
  | link hstep hlink hgo _ ih => exact .link hstep (h.eq_some hlink) hgo ih
  | @last _ _ place name hstep _ hnolink =>
      by_cases hdir : fs'.entryAt? (place ++ [name]) = some .dir
      · exact .dir hstep hdir .here
      · exact .last hstep hdir fun hfollow => h.no_link (hnolink hfollow)

theorem resolve (h : Fills fs fs') (hresolve : fs.resolve mode p = .ok spot) :
    fs'.resolve mode p = .ok spot := by
  obtain ⟨husable, horigin, hway⟩ := resolve_eq_ok_iff_walks.1 hresolve
  refine resolve_eq_ok_iff_walks.2 ⟨husable, ?_⟩
  rw [origin_congr h.home]
  exact ⟨h.eq_some horigin, h.walks hway⟩

theorem find (h : Fills fs fs') {node : Node} (hfind : fs.find mode p = .ok (place, node)) :
    ∃ node', fs'.find mode p = .ok (place, node') ∧ node'.entry = node.entry := by
  obtain ⟨spot, hresolve, rfl, hnode, hslash⟩ := find_eq_ok_iff_resolve.1 hfind
  have hentry : fs'.entryAt? spot.place = some node.entry :=
    h.eq_some (by rw [entryAt?_eq_map, hnode, Option.map_some])
  rw [entryAt?_eq_map] at hentry
  obtain ⟨node', hnode', heq⟩ := Option.map_eq_some_iff.1 hentry
  refine ⟨node', find_eq_ok_iff_resolve.2 ⟨spot, h.resolve hresolve, rfl, hnode', ?_⟩, heq⟩
  rw [Node.isDir_iff_entry, heq, ← Node.isDir_iff_entry]
  exact hslash

theorem stat_dir (h : Fills fs fs') {es : List (String × Node)}
    (hstat : fs.stat p = .ok (place, .dir es)) : ∃ es', fs'.stat p = .ok (place, .dir es') := by
  obtain ⟨node', hfind, hentry⟩ := h.find hstat
  cases node' with
  | dir es' => exact ⟨es', hfind⟩
  | file b => cases hentry
  | link t => cases hentry

end Fills

/-- A path that leads to nothing or to something else than a link leads there in any case. -/
theorem resolve_always_of_never (h : fs.resolve .never p = .ok spot)
    (hnolink : ∀ target, fs.entryAt? spot.place ≠ some (.link target)) :
    fs.resolve .always p = .ok spot := by
  obtain ⟨husable, horigin, hway⟩ := resolve_eq_ok_iff_walks.1 h
  exact resolve_eq_ok_iff_walks.2 ⟨husable, horigin, Walks.followed hway hnolink⟩

theorem entryAt?_setDir_of_resolve (h : fs.resolve mode p = .ok spot)
    (hnone : fs.entryAt? spot.place = none) (q : Place) :
    (fs.setDir spot.place).entryAt? q = if q = spot.place then some .dir else fs.entryAt? q := by
  rcases resolve_ends h with hdir | ⟨dir, name, hplace, hdir⟩
  · rw [hnone] at hdir
    cases hdir
  · rw [hplace] at hnone ⊢
    exact entryAt?_put_of_dir rfl hdir (by rw [hnone]; simp) q

theorem entryAt?_setFile_of_resolve (h : fs.resolve mode p = .ok spot)
    (hnot : fs.entryAt? spot.place ≠ some .dir) (b : ByteArray) (q : Place) :
    (fs.setFile spot.place b).entryAt? q
      = if q = spot.place then some (.file b) else fs.entryAt? q := by
  rcases resolve_ends h with hdir | ⟨dir, name, hplace, hdir⟩
  · exact absurd hdir hnot
  · rw [hplace] at hnot ⊢
    exact entryAt?_put_of_dir rfl hdir hnot q

/-! ## On the way of a path -/

/-- **A place that a path leads by**: a beginning of its parts leads to a directory there. -/
def OnWay (fs : FileSystem) (dst : HostPath) (place : Place) : Prop :=
  ∃ p : HostPath, p.parts <+: dst.parts ∧ p.parts ≠ dst.parts
    ∧ ∃ es, fs.stat p = .ok (place, .dir es)

theorem OnWay.fills (h : fs.OnWay dst place) (hfills : Fills fs fs') : fs'.OnWay dst place := by
  obtain ⟨p, hfront, hproper, es, hstat⟩ := h
  exact ⟨p, hfront, hproper, hfills.stat_dir hstat⟩

/-- What a path leads by is not lost where the path itself still leads somewhere. -/
theorem OnWay.shrinks (h : fs.OnWay dst place) (hshrinks : Shrinks fs fs')
    (hresolve : fs'.resolve mode dst = .ok spot) : fs'.OnWay dst place := by
  obtain ⟨p, hfront, hproper, es, hstat⟩ := h
  obtain ⟨more, hmore⟩ := id hfront
  have hparts : p.parts ≠ [] := by
    obtain ⟨_, hp, -⟩ := find_eq_ok_iff_resolve.1 hstat
    exact fun hnil => (resolve_eq_ok_iff_walks.1 hp).1.ne_empty (HostPath.parts_eq_nil_iff.1 hnil)
  have hrest : more ≠ [] := by
    rintro rfl
    exact hproper ((List.append_nil _).symm.trans hmore)
  have hisDir := isDir_beginning hresolve hmore.symm hparts hrest
  obtain ⟨place', es', hstat'⟩ := isDir_iff_stat.1 hisDir
  have hback := HostPath.parts_ofParts hfront
  -- both lead where the beginning led before
  have hsame : place' = place := by
    obtain ⟨node, hbefore, -⟩ := hshrinks.find hstat'
    obtain ⟨_, hp, rfl, -⟩ := find_eq_ok_iff_resolve.1 hstat
    obtain ⟨_, hp', rfl, -⟩ := find_eq_ok_iff_resolve.1 hbefore
    exact place_eq_of_parts_eq hback.symm hp hp'
  exact ⟨.ofParts p.parts, by rw [hback]; exact hfront, by rw [hback]; exact hproper, es',
    hsame ▸ hstat'⟩

/-- **Directories have been made along a path**, where nothing stood, and nothing else has
changed. -/
structure MadeAlong (dst : HostPath) (fs fs' : FileSystem) : Prop where
  home : fs'.home = fs.home
  entry : ∀ q, fs'.entryAt? q = fs.entryAt? q
    ∨ fs.entryAt? q = none ∧ fs'.entryAt? q = some .dir ∧ fs'.OnWay dst q

namespace MadeAlong

theorem refl (dst : HostPath) (fs : FileSystem) : MadeAlong dst fs fs := ⟨rfl, fun _ => Or.inl rfl⟩

theorem fills (h : MadeAlong dst fs fs') : Fills fs fs' := by
  refine ⟨h.home, fun q => (h.entry q).imp id fun hmade => ⟨hmade.1, fun target => ?_⟩⟩
  rw [hmade.2.1]
  simp

theorem trans (h : MadeAlong dst fs fs') (h' : MadeAlong dst fs' fs'') :
    MadeAlong dst fs fs'' where
  home := h'.home.trans h.home
  entry q := by
    rcases h'.entry q with heq' | ⟨hnone', hmade'⟩
    · rcases h.entry q with heq | ⟨hnone, hdir, hway⟩
      · exact Or.inl (heq'.trans heq)
      · exact Or.inr ⟨hnone, heq'.trans hdir, hway.fills h'.fills⟩
    · rcases h.entry q with heq | ⟨-, hdir, -⟩
      · exact Or.inr ⟨heq ▸ hnone', hmade'⟩
      · rw [hdir] at hnone'
        cases hnone'

end MadeAlong

end FileSystem

namespace FileAction

open FileSystem (Fills MadeAlong)

variable {fs fs' : FileSystem} {p dst : HostPath}

/-! ## Making directories -/

/-- A directory that the path leads to is not made, whatever links the path goes by. -/
theorem makeDir_of_found (h : fs.isDir p = true) : makeDir p fs = .error .alreadyExists fs := by
  obtain ⟨place, es, hstat⟩ := FileSystem.isDir_iff_stat.1 h
  obtain ⟨spot, hresolve, rfl, hnode, -⟩ := FileSystem.find_eq_ok_iff_resolve.1 hstat
  obtain ⟨husable, horigin, hway⟩ := FileSystem.resolve_eq_ok_iff_walks.1 hresolve
  have hthere : fs.entryAt? spot.place ≠ none := by
    rw [FileSystem.entryAt?_eq_map, hnode]
    simp
  obtain ⟨other, hnever, hother, -⟩ := FileSystem.Walks.unfollowed hway hthere
  have hresolve' : fs.resolve .never p = .ok other :=
    FileSystem.resolve_eq_ok_iff_walks.2 ⟨husable, horigin, hnever⟩
  obtain ⟨n, hn⟩ := Option.ne_none_iff_exists'.1 (mt FileSystem.entryAt?_eq_none_iff.2 hother)
  rw [makeDir, hresolve']
  dsimp only
  rw [hn]

theorem makeOrFind_along (fs : FileSystem) (hfront : p.parts <+: dst.parts)
    (hproper : p.parts ≠ dst.parts) :
    Ends (makeOrFind p) fs (fun _ fs' => MadeAlong dst fs fs')
      (fun _ fs' => MadeAlong dst fs fs' ∧ fs'.isDir p = false) := by
  refine makeOrFind_cases (fun fs' hrun => ?_) (fun _ => .refl dst fs)
    fun _ hnot => ⟨.refl dst fs, hnot⟩
  obtain ⟨spot, hresolve, hnone, rfl⟩ := (makeDir_makes p).of_ok hrun
  have hentry := FileSystem.entryAt?_setDir_of_resolve hresolve hnone
  have hfills : Fills fs (fs.setDir spot.place) := .of_put rfl (by simp) hnone hentry
  have halways := hfills.resolve
    (FileSystem.resolve_always_of_never hresolve (by rw [hnone]; simp))
  have hdir := hentry spot.place
  rw [if_pos rfl] at hdir
  obtain ⟨es, hes⟩ := FileSystem.entryAt?_eq_dir_iff.1 hdir
  refine ⟨rfl, fun q => ?_⟩
  rw [hentry q]
  split
  · next heq =>
      rw [heq]
      exact Or.inr ⟨hnone, rfl, p, hfront, hproper, es,
        FileSystem.find_eq_ok_iff_resolve.2 ⟨spot, halways, rfl, hes, fun _ => rfl⟩⟩
  · exact Or.inl rfl

/-- A directory with its parents is made along the path. If it cannot be made, there is none. -/
theorem makeDirs_along (fs : FileSystem) {p : HostPath} {last : String} {above : List String}
    (hparts : p.parts = above.reverse ++ [last]) (hfront : p.parts <+: dst.parts)
    (hproper : p.parts ≠ dst.parts) :
    Ends (makeDirs p above) fs (fun _ fs' => MadeAlong dst fs fs')
      (fun _ fs' => MadeAlong dst fs fs' ∧ fs'.isDir p = false) := by
  induction above generalizing fs p last with
  | nil => exact makeOrFind_along fs hfront hproper
  | cons part above ih =>
      have hsub : (part :: above).reverse <+: p.parts := by
        rw [hparts]
        exact List.prefix_append _ _
      have hback : (HostPath.ofParts (part :: above).reverse).parts = above.reverse ++ [part] := by
        rw [HostPath.parts_ofParts hsub, List.reverse_cons]
      have hshorter : (above.reverse ++ [part]).length < dst.parts.length := by
        have hlen := hfront.length_le
        rw [hparts, List.length_append, List.reverse_cons, List.length_singleton] at hlen
        omega
      have hparent := ih fs hback
        (by rw [hback, ← List.reverse_cons]; exact hsub.trans hfront)
        (by rw [hback]; exact fun heq => absurd (congrArg List.length heq) (by omega))
      refine makeDirs_cons_ends (makeOrFind_along fs hfront hproper)
        (hparent.mono (fun _ fs1 h1 => ?_) fun _ fs1 hfailed => ?_)
      · exact (makeOrFind_along fs1 hfront hproper).mono
          (fun _ _ h2 => h1.trans h2) fun _ _ h2 => ⟨h1.trans h2.1, h2.2⟩
      · -- without the directory around it the path leads nowhere
        obtain ⟨halong, hnot⟩ := hfailed
        refine ⟨halong, ?_⟩
        rw [Bool.eq_false_iff]
        intro hdir
        obtain ⟨place, es, hstat⟩ := FileSystem.isDir_iff_stat.1 hdir
        obtain ⟨spot, hresolve, -⟩ := FileSystem.find_eq_ok_iff_resolve.1 hstat
        rw [FileSystem.isDir_beginning hresolve hparts (by simp) (by simp)] at hnot
        cases hnot

theorem createDirAll_of_found (h : fs.isDir p = true) : createDirAll p fs = .ok () fs :=
  createDirAll_of_alreadyExists (makeDir_of_found h) h

/-! ## The directories around a path -/

theorem parent?_eq_some {parent : HostPath} (h : dst.parent? = some parent) :
    ∃ ps last, dst.parts = ps ++ [last] ∧ parent = .ofParts ps := by
  unfold HostPath.parent? at h
  split at h
  · cases h
  · cases h
  · next hnil _ =>
      cases h
      exact ⟨_, _, (List.dropLast_append_getLast hnil).symm, rfl⟩

/-- **The directories around a path are made along it.** If they cannot be made, the path leads
nowhere. -/
theorem ensureParent_along (dst : HostPath) (fs : FileSystem) :
    Ends (ensureParent dst) fs (fun _ fs' => MadeAlong dst fs fs')
      (fun _ fs' => MadeAlong dst fs fs' ∧ ∀ mode spot, fs'.resolve mode dst ≠ .ok spot) := by
  rw [ensureParent]
  cases hparent : dst.parent? with
  | none => exact .refl dst fs
  | some parent =>
      obtain ⟨ps, last, hparts, rfl⟩ := parent?_eq_some hparent
      have hsub : ps <+: dst.parts := by
        rw [hparts]
        exact List.prefix_append ps [last]
      have hback := HostPath.parts_ofParts hsub
      have hfront : (HostPath.ofParts ps).parts <+: dst.parts := by
        rw [hback]
        exact hsub
      have hproper : (HostPath.ofParts ps).parts ≠ dst.parts := by
        rw [hback, hparts]
        exact fun heq => absurd (congrArg List.length heq) (by simp)
      dsimp only
      rw [createDirAll, hback]
      cases hrev : ps.reverse with
      | nil => exact .refl dst fs
      | cons part above =>
          have hps : ps = above.reverse ++ [part] := by
            rw [← List.reverse_reverse ps, hrev, List.reverse_cons]
          refine (makeDirs_along fs (hback.trans hps) hfront hproper).mono
            (fun _ _ halong => halong) fun _ fs' hfailed => ⟨hfailed.1, ?_⟩
          intro mode spot hresolve
          have hnot := hfailed.2
          rw [FileSystem.isDir_beginning hresolve hparts (by rw [hps]; simp) (by simp)] at hnot
          cases hnot

theorem ensureParent_of_resolve {mode : Follow} {spot : Spot}
    (h : fs.resolve mode dst = .ok spot) : ensureParent dst fs = .ok () fs := by
  rw [ensureParent]
  cases hparent : dst.parent? with
  | none => rfl
  | some parent =>
      obtain ⟨ps, last, hparts, rfl⟩ := parent?_eq_some hparent
      dsimp only
      by_cases hps : ps = []
      · rw [hps]
        exact createDirAll_of_empty rfl
      · exact createDirAll_of_found (FileSystem.isDir_beginning h hparts hps (by simp))

end FileAction

end PackageScript
