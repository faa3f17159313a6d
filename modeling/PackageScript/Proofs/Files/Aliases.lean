import PackageScript.Proofs.Files.Removals
import PackageScript.Proofs.Files.Ways

set_option autoImplicit false

/-! # Spellings of one place

With links the place where a path arrives is not the one that its names spell, but two things that
hold of names hold of it. A `.` among the names makes no difference (`Walks.drop_dots`), so that
paths with the same parts lead to one place (`place_eq_of_parts_eq`). And a path leads on only from
a directory, so that each beginning of its parts leads to one (`isDir_beginning`). Both are proved
of ways, by induction on the way: a link replaces the names in front, and what is said of the names
behind has to be said for any names in front of them.
-/

namespace PackageScript

namespace FileSystem

variable {fs : FileSystem} {p q : HostPath} {place : Place} {name : String} {mode : Follow}
variable {follow slash : Bool} {links : Nat} {names rest : List String} {spot spot' : Spot}

/-! ## Ways -/

/-- Where a way ends does not depend on how the end was written. -/
theorem Walks.reslash (h : fs.Walks follow links slash place names spot) (slash' : Bool) :
    ∃ after, fs.Walks follow links slash' place names ⟨spot.place, after⟩ := by
  induction h generalizing slash' with
  | here => exact ⟨slash', .here⟩
  | dot hname _ ih =>
      obtain ⟨after, hway⟩ := ih slash'
      exact ⟨after, .dot hname hway⟩
  | dots hname _ ih =>
      obtain ⟨after, hway⟩ := ih slash'
      exact ⟨after, .dots hname hway⟩
  | dir hstep hdir _ ih =>
      obtain ⟨after, hway⟩ := ih slash'
      exact ⟨after, .dir hstep hdir hway⟩
  | link hstep hlink hgo _ ih =>
      obtain ⟨after, hway⟩ := ih _
      exact ⟨after, .link hstep hlink hgo hway⟩
  | last hstep hnot hnolink => exact ⟨slash', .last hstep hnot hnolink⟩

/-- **Names lead to one end only.** -/
theorem Walks.unique (h : fs.Walks follow links slash place names spot)
    (h' : fs.Walks follow links slash place names spot') : spot' = spot := by
  induction h with
  | here => exact walks_nil_iff.1 h'
  | dot hname _ ih => exact ih (walks_dot_iff.1 (hname ▸ h'))
  | dots hname _ ih => exact ih (walks_dots_iff.1 (hname ▸ h'))
  | dir hstep hdir _ ih => exact ih ((walks_dir_iff hstep hdir).1 h')
  | link hstep hlink hgo _ ih =>
      obtain ⟨fewer, heq, hway⟩ := (walks_link_iff hstep hlink hgo).1 h'
      cases heq
      exact ih hway
  | @last links slash place name hstep hnot hnolink =>
      refine ((walks_last_iff hstep hnot fun target hlink => ⟨rfl, ?_⟩).1 h').2
      rw [← Bool.not_eq_true]
      exact fun hfollow => hnolink hfollow target hlink

/-- A way that follows its last name goes on without a `.` that stands among its names. -/
theorem Walks.drop_dot {front behind : List String}
    (h : fs.Walks true links slash place (front ++ "." :: behind) spot) :
    ∃ after, fs.Walks true links slash place (front ++ behind) ⟨spot.place, after⟩ := by
  generalize hnames : front ++ "." :: behind = names at h
  induction h generalizing front with
  | here => exact absurd hnames (by simp)
  | @dot links slash place name rest spot hname hway ih =>
      cases front with
      | nil =>
          obtain ⟨-, rfl⟩ := List.cons.inj hnames
          exact ⟨_, hway⟩
      | cons first front =>
          obtain ⟨rfl, hrest⟩ := List.cons.inj hnames
          obtain ⟨after, hway⟩ := ih hrest
          exact ⟨after, .dot hname hway⟩
  | dots hname _ ih =>
      cases front with
      | nil => exact absurd ((List.cons.inj hnames).1.trans hname) (by decide)
      | cons first front =>
          obtain ⟨rfl, hrest⟩ := List.cons.inj hnames
          obtain ⟨after, hway⟩ := ih hrest
          exact ⟨after, .dots hname hway⟩
  | dir hstep hdir _ ih =>
      cases front with
      | nil => exact absurd (List.cons.inj hnames).1.symm hstep.ne_dot
      | cons first front =>
          obtain ⟨rfl, hrest⟩ := List.cons.inj hnames
          obtain ⟨after, hway⟩ := ih hrest
          exact ⟨after, .dir hstep hdir hway⟩
  | @link links slash place name target rest spot hstep hlink _ _ ih =>
      cases front with
      | nil => exact absurd (List.cons.inj hnames).1.symm hstep.ne_dot
      | cons first front =>
          obtain ⟨rfl, rfl⟩ := List.cons.inj hnames
          -- the names of the target come in front of those that are left
          obtain ⟨after, hway⟩ := ih (List.append_assoc _ front _)
          rw [List.append_assoc] at hway
          obtain ⟨after', hway⟩ := hway.reslash
            (slash || ((front ++ behind).isEmpty && HostPath.endsWithSlash ⟨target⟩))
          exact ⟨after', .link hstep hlink (Or.inr rfl) hway⟩
  | last hstep _ _ =>
      cases front with
      | nil => exact absurd (List.cons.inj hnames).1.symm hstep.ne_dot
      | cons first front =>
          obtain ⟨-, hrest⟩ := List.cons.inj hnames
          exact absurd hrest (by simp)

/-- **Dots among the names make no difference.** -/
theorem Walks.drop_dots (front : List String)
    (h : fs.Walks true links slash place (front ++ names) spot) :
    ∃ after, fs.Walks true links slash place (front ++ names.filter (· != "."))
      ⟨spot.place, after⟩ := by
  induction names generalizing front spot with
  | nil => exact ⟨spot.slash, h⟩
  | cons name rest ih =>
      by_cases hdot : name = "."
      · rw [hdot] at h
        obtain ⟨after, hway⟩ := h.drop_dot
        have hrest := ih front hway
        rw [List.filter_cons_of_neg (by simp [hdot])]
        exact hrest
      · rw [List.filter_cons_of_pos (by simp [hdot]), List.append_cons]
        rw [List.append_cons] at h
        exact ih (front ++ [name]) h

theorem Walks.without_dots (h : fs.Walks true links slash place names spot) :
    ∃ after, fs.Walks true links slash place (names.filter (· != ".")) ⟨spot.place, after⟩ := by
  rw [← List.nil_append names] at h
  exact h.drop_dots []

theorem root_dir (hdir : fs.entryAt? place = some .dir) : fs.entryAt? [] = some .dir :=
  dir_of_prefix_dir hdir List.nil_prefix

/-- **A way goes on only from a directory.** -/
theorem Walks.beginning {front behind : List String}
    (h : fs.Walks follow links slash place (front ++ behind) spot) (hbehind : behind ≠ [])
    (hdir : fs.entryAt? place = some .dir) (slash' : Bool) :
    ∃ top after, fs.Walks true links slash' place front ⟨top, after⟩
      ∧ fs.entryAt? top = some .dir := by
  generalize hnames : front ++ behind = names at h
  induction h generalizing front slash' with
  | here => exact absurd (List.append_eq_nil_iff.1 hnames).2 hbehind
  | dot hname _ ih =>
      cases front with
      | nil => exact ⟨_, slash', .here, hdir⟩
      | cons first front =>
          obtain ⟨rfl, hrest⟩ := List.cons.inj hnames
          obtain ⟨top, after, hway, htop⟩ := ih hdir slash' hrest
          exact ⟨top, after, .dot hname hway, htop⟩
  | dots hname _ ih =>
      cases front with
      | nil => exact ⟨_, slash', .here, hdir⟩
      | cons first front =>
          obtain ⟨rfl, hrest⟩ := List.cons.inj hnames
          obtain ⟨top, after, hway, htop⟩ := ih (dir_dropLast hdir) slash' hrest
          exact ⟨top, after, .dots hname hway, htop⟩
  | dir hstep hnext _ ih =>
      cases front with
      | nil => exact ⟨_, slash', .here, hdir⟩
      | cons first front =>
          obtain ⟨rfl, hrest⟩ := List.cons.inj hnames
          obtain ⟨top, after, hway, htop⟩ := ih hnext slash' hrest
          exact ⟨top, after, .dir hstep hnext hway, htop⟩
  | @link links slash place name target rest spot hstep hlink _ _ ih =>
      cases front with
      | nil => exact ⟨_, slash', .here, hdir⟩
      | cons first front =>
          obtain ⟨rfl, rfl⟩ := List.cons.inj hnames
          -- the way goes on behind the link from a directory, too
          have horigin : fs.entryAt? (if HostPath.isRooted ⟨target⟩ then [] else place)
              = some .dir := by
            split
            · exact root_dir hdir
            · exact hdir
          obtain ⟨top, after, hway, htop⟩ := ih horigin _ (List.append_assoc _ front behind)
          exact ⟨top, after, .link hstep hlink (Or.inr rfl) hway, htop⟩
  | last hstep _ _ =>
      cases front with
      | nil => exact ⟨_, slash', .here, hdir⟩
      | cons first front =>
          obtain ⟨-, hrest⟩ := List.cons.inj hnames
          exact absurd (List.append_eq_nil_iff.1 hrest).2 hbehind

/-- A way ends at a directory or under a name in one, and at a link only if that is not followed. -/
theorem Walks.ends (h : fs.Walks follow links slash place names spot)
    (hdir : fs.entryAt? place = some .dir) :
    fs.entryAt? spot.place = some .dir
      ∨ (∃ dir name, spot.place = dir ++ [name] ∧ fs.entryAt? dir = some .dir)
        ∧ (follow = true → ∀ target, fs.entryAt? spot.place ≠ some (.link target)) := by
  induction h with
  | here => exact Or.inl hdir
  | dot _ _ ih => exact ih hdir
  | dots _ _ ih => exact ih (dir_dropLast hdir)
  | dir _ hnext _ ih => exact ih hnext
  | link _ _ _ _ ih =>
      refine ih ?_
      split
      · exact root_dir hdir
      · exact hdir
  | last _ _ hnolink => exact Or.inr ⟨⟨_, _, rfl, hdir⟩, hnolink⟩

theorem Walks.slash_of_slash (h : fs.Walks follow links slash place names spot)
    (hslash : slash = true) : spot.slash = true := by
  induction h with
  | here => exact hslash
  | dot _ _ ih => exact ih hslash
  | dots _ _ ih => exact ih hslash
  | dir _ _ _ ih => exact ih hslash
  | link _ _ _ _ ih => exact ih (by rw [hslash, Bool.true_or])
  | last => exact hslash

theorem Walks.slash_eq (h : fs.Walks false links slash place names spot) : spot.slash = slash := by
  induction h with
  | here => rfl
  | dot _ _ ih => exact ih
  | dots _ _ ih => exact ih
  | dir _ _ _ ih => exact ih
  | link _ _ hgo _ ih =>
      have hrest := List.isEmpty_eq_false_iff.2 (hgo.resolve_right Bool.false_ne_true)
      rw [ih, hrest, Bool.false_and, Bool.or_false]
  | last => rfl

/-- Where the last name is no link, it makes no difference whether that would be followed. -/
theorem Walks.followed (h : fs.Walks false links slash place names spot)
    (hnolink : ∀ target, fs.entryAt? spot.place ≠ some (.link target)) :
    fs.Walks true links slash place names spot := by
  induction h with
  | here => exact .here
  | dot hname _ ih => exact .dot hname (ih hnolink)
  | dots hname _ ih => exact .dots hname (ih hnolink)
  | dir hstep hdir _ ih => exact .dir hstep hdir (ih hnolink)
  | link hstep hlink _ _ ih => exact .link hstep hlink (Or.inr rfl) (ih hnolink)
  | last hstep hnot _ => exact .last hstep hnot fun _ => hnolink

/-! ## Paths -/

theorem resolve_ends (h : fs.resolve mode p = .ok spot) :
    fs.entryAt? spot.place = some .dir
      ∨ ∃ dir name, spot.place = dir ++ [name] ∧ fs.entryAt? dir = some .dir := by
  obtain ⟨-, horigin, hway⟩ := resolve_eq_ok_iff_walks.1 h
  exact (hway.ends horigin).imp id And.left

/-- **Paths with the same parts lead to one place.** -/
theorem place_eq_of_parts_eq (hparts : p.parts = q.parts) (hp : fs.resolve .always p = .ok spot)
    (hq : fs.resolve .always q = .ok spot') : spot'.place = spot.place := by
  have hrooted : p.isRooted = q.isRooted := by
    rw [Bool.eq_iff_iff, HostPath.isRooted_iff_head?_parts, HostPath.isRooted_iff_head?_parts,
      hparts]
  have hsteps : p.steps.filter (· != ".") = q.steps.filter (· != ".") := by
    have hfilter := congrArg (List.filter (· != ".")) hparts
    rw [HostPath.filter_parts, HostPath.filter_parts, hrooted] at hfilter
    exact List.append_cancel_left hfilter
  obtain ⟨-, -, hwayp⟩ := resolve_eq_ok_iff_walks.1 hp
  obtain ⟨-, -, hwayq⟩ := resolve_eq_ok_iff_walks.1 hq
  obtain ⟨_, hwayp⟩ := hwayp.reslash false
  obtain ⟨_, hwayq⟩ := hwayq.reslash false
  obtain ⟨_, hwayp⟩ := hwayp.without_dots
  obtain ⟨_, hwayq⟩ := hwayq.without_dots
  rw [hsteps, origin, hrooted] at hwayp
  exact (Spot.mk.inj (hwayp.unique hwayq)).1

/-- **A path leads on only from directories**: each beginning of its parts leads to one. -/
theorem isDir_beginning {ps more : List String} (h : fs.resolve mode p = .ok spot)
    (hparts : p.parts = ps ++ more) (hps : ps ≠ []) (hmore : more ≠ []) :
    fs.isDir (.ofParts ps) = true := by
  have hfront : ps <+: p.parts := by
    rw [hparts]
    exact List.prefix_append ps more
  obtain ⟨husable, horigin, hway⟩ := resolve_eq_ok_iff_walks.1 h
  obtain ⟨front, between, behind, hsteps, hbehind, hnames⟩ :=
    HostPath.steps_ofParts_beginning hparts hps hmore
  rw [hsteps] at hway
  obtain ⟨top, _, hway, htop⟩ := hway.beginning hbehind horigin
    (HostPath.endsWithSlash (.ofParts ps))
  obtain ⟨after, hway⟩ := hway.drop_dots front
  rw [← hnames] at hway
  have hresolve : fs.resolve .always (.ofParts ps) = .ok ⟨top, after⟩ := by
    refine resolve_eq_ok_iff_walks.2 ⟨husable.beginning hfront hps, ?_⟩
    rw [fs.origin_ofParts hfront hps]
    exact ⟨horigin, hway⟩
  obtain ⟨es, hes⟩ := entryAt?_eq_dir_iff.1 htop
  exact isDir_iff_stat.2 ⟨top, es,
    find_eq_ok_iff_resolve.2 ⟨_, hresolve, rfl, hes, fun _ => rfl⟩⟩

end FileSystem

end PackageScript
