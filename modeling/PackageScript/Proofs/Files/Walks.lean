import PackageScript.Proofs.Files.Expand

set_option autoImplicit false

/-! # Where a path leads when there are links

Without links the place where a path arrives is the one that its names spell. With links the way
depends on what stands at each name: a link hands the walk over to the names of its target, and
each link that is followed counts. `FileSystem.Walks` tells the ways that arrive, one constructor
for each thing that can stand under the next name, and `walk_eq_ok_iff_walks` says that following
a path finds just these. What is proved of walks here goes by induction on the way: the same way
without following the last name (`Walks.unfollowed`), the way one name further
(`Walks.concat`), and where a way ends that is not followed to its end
(`Walks.place_ne_nil`).
-/

namespace PackageScript

namespace FileSystem

variable {fs : FileSystem} {p d : HostPath} {place : Place} {name : String}
variable {follow slash : Bool} {links : Nat} {names rest : List String} {spot : Spot}

/-- A name that a walk goes down by. -/
structure IsStep (name : String) : Prop where
  ne_dot : name ≠ "."
  ne_dots : name ≠ ".."
  short : name.utf8ByteSize ≤ nameLimit

theorem IsStep.of_isName (h : IsName name) : IsStep name := ⟨h.ne_dot, h.ne_dots, h.short⟩

/-- **The ways of names from a directory, with at most so many links followed.** The spot is where
a way ends, and the slash says whether the end was written with one. -/
inductive Walks (fs : FileSystem) (follow : Bool) :
    Nat → Bool → Place → List String → Spot → Prop
  | here {links : Nat} {slash : Bool} {place : Place} :
      Walks fs follow links slash place [] ⟨place, slash⟩
  | dot {links : Nat} {slash : Bool} {place : Place} {name : String} {rest : List String}
      {spot : Spot} : name = "." → Walks fs follow links slash place rest spot →
      Walks fs follow links slash place (name :: rest) spot
  | dots {links : Nat} {slash : Bool} {place : Place} {name : String} {rest : List String}
      {spot : Spot} : name = ".." → Walks fs follow links slash place.dropLast rest spot →
      Walks fs follow links slash place (name :: rest) spot
  | dir {links : Nat} {slash : Bool} {place : Place} {name : String} {rest : List String}
      {spot : Spot} : IsStep name → fs.entryAt? (place ++ [name]) = some .dir →
      Walks fs follow links slash (place ++ [name]) rest spot →
      Walks fs follow links slash place (name :: rest) spot
  | link {links : Nat} {slash : Bool} {place : Place} {name target : String}
      {rest : List String} {spot : Spot} : IsStep name →
      fs.entryAt? (place ++ [name]) = some (.link target) → rest ≠ [] ∨ follow = true →
      Walks fs follow links (slash || (rest.isEmpty && HostPath.endsWithSlash ⟨target⟩))
        (if HostPath.isRooted ⟨target⟩ then [] else place) (HostPath.steps ⟨target⟩ ++ rest) spot →
      Walks fs follow (links + 1) slash place (name :: rest) spot
  | last {links : Nat} {slash : Bool} {place : Place} {name : String} : IsStep name →
      fs.entryAt? (place ++ [name]) ≠ some .dir →
      (follow = true → ∀ target, fs.entryAt? (place ++ [name]) ≠ some (.link target)) →
      Walks fs follow links slash place [name] ⟨place ++ [name], slash⟩

/-! ## Following a path -/

theorem down?_cases (here : Stand fs.root) (name : String) :
    (here.down? name = none ∧ fs.entryAt? (here.place ++ [name]) = none)
      ∨ ∃ next, here.down? name = some next ∧ next.place = here.place ++ [name]
        ∧ fs.entryAt? (here.place ++ [name]) = some next.node.entry := by
  cases hdown : here.down? name with
  | none =>
      refine Or.inl ⟨rfl, ?_⟩
      rw [entryAt?_eq_map, node?, here.get?_place_append, Node.get?_cons,
        Stand.down?_eq_none_iff.1 hdown]
      rfl
  | some next =>
      obtain ⟨hplace, -⟩ := Stand.down?_eq_some hdown
      refine Or.inr ⟨next, rfl, hplace, ?_⟩
      rw [← hplace, entryAt?_eq_map, node?, next.get?_place, Option.map_some]

theorem walks_nil_iff : fs.Walks follow links slash place [] spot ↔ spot = ⟨place, slash⟩ := by
  constructor
  · intro h
    cases h
    rfl
  · rintro rfl
    exact .here

theorem walks_dot_iff :
    fs.Walks follow links slash place ("." :: rest) spot
      ↔ fs.Walks follow links slash place rest spot := by
  refine ⟨fun h => ?_, .dot rfl⟩
  cases h with
  | dot _ h => exact h
  | dots hname => exact absurd hname (by decide)
  | dir hstep => exact absurd rfl hstep.ne_dot
  | link hstep => exact absurd rfl hstep.ne_dot
  | last hstep => exact absurd rfl hstep.ne_dot

theorem walks_dots_iff :
    fs.Walks follow links slash place (".." :: rest) spot
      ↔ fs.Walks follow links slash place.dropLast rest spot := by
  refine ⟨fun h => ?_, .dots rfl⟩
  cases h with
  | dot hname => exact absurd hname (by decide)
  | dots _ h => exact h
  | dir hstep => exact absurd rfl hstep.ne_dots
  | link hstep => exact absurd rfl hstep.ne_dots
  | last hstep => exact absurd rfl hstep.ne_dots

/-! ### What stands under the next name -/

theorem Walks.isStep (h : fs.Walks follow links slash place (name :: rest) spot)
    (hdot : name ≠ ".") (hdots : name ≠ "..") : IsStep name := by
  cases h with
  | dot hname => exact absurd hname hdot
  | dots hname => exact absurd hname hdots
  | dir hstep => exact hstep
  | link hstep => exact hstep
  | last hstep => exact hstep

theorem walks_dir_iff (hstep : IsStep name) (hdir : fs.entryAt? (place ++ [name]) = some .dir) :
    fs.Walks follow links slash place (name :: rest) spot
      ↔ fs.Walks follow links slash (place ++ [name]) rest spot := by
  refine ⟨fun h => ?_, .dir hstep hdir⟩
  cases h with
  | dot hname => exact absurd hname hstep.ne_dot
  | dots hname => exact absurd hname hstep.ne_dots
  | dir _ _ h => exact h
  | link _ hlink =>
      rw [hdir] at hlink
      cases hlink
  | last _ hnot => exact absurd hdir hnot

/-- A link hands the way over to its target. -/
theorem walks_link_iff {target : String} (hstep : IsStep name)
    (hlink : fs.entryAt? (place ++ [name]) = some (.link target))
    (hgo : rest ≠ [] ∨ follow = true) :
    fs.Walks follow links slash place (name :: rest) spot
      ↔ ∃ fewer, links = fewer + 1
        ∧ fs.Walks follow fewer (slash || (rest.isEmpty && HostPath.endsWithSlash ⟨target⟩))
          (if HostPath.isRooted ⟨target⟩ then [] else place) (HostPath.steps ⟨target⟩ ++ rest)
          spot := by
  constructor
  · intro h
    cases h with
    | dot hname => exact absurd hname hstep.ne_dot
    | dots hname => exact absurd hname hstep.ne_dots
    | dir _ hdir =>
        rw [hlink] at hdir
        cases hdir
    | link _ hlink' _ h =>
        rw [hlink] at hlink'
        cases hlink'
        exact ⟨_, rfl, h⟩
    | last _ _ hnolink =>
        exact absurd hlink (hnolink (hgo.resolve_left fun hne => hne rfl) target)
  · rintro ⟨fewer, rfl, h⟩
    exact .link hstep hlink hgo h

/-- Whatever else there is, only the last name may lead to it. -/
theorem walks_last_iff (hstep : IsStep name) (hnot : fs.entryAt? (place ++ [name]) ≠ some .dir)
    (hstay : ∀ target, fs.entryAt? (place ++ [name]) = some (.link target) →
      rest = [] ∧ follow = false) :
    fs.Walks follow links slash place (name :: rest) spot
      ↔ rest = [] ∧ spot = ⟨place ++ [name], slash⟩ := by
  constructor
  · intro h
    cases h with
    | dot hname => exact absurd hname hstep.ne_dot
    | dots hname => exact absurd hname hstep.ne_dots
    | dir _ hdir => exact absurd hdir hnot
    | link _ hlink hgo =>
        obtain ⟨hrest, hfollow⟩ := hstay _ hlink
        rw [hfollow] at hgo
        exact absurd hrest (hgo.resolve_right Bool.false_ne_true)
    | last => exact ⟨rfl, rfl⟩
  · rintro ⟨rfl, rfl⟩
    refine .last hstep hnot fun hfollow target hlink => ?_
    rw [(hstay target hlink).2] at hfollow
    cases hfollow

theorem last_eq_ok_iff {found : Spot} {e : FileError} :
    (if rest = [] then Except.ok found else .error e) = .ok spot ↔ rest = [] ∧ spot = found := by
  split
  · next hrest => rw [Except.ok.injEq, and_iff_right hrest, eq_comm]
  · next hrest => exact ⟨fun h => (by cases h), fun h => absurd h.1 hrest⟩

/-- Names are followed along the ways, if what is done at a link is. -/
theorem walkWith_eq_ok_iff_walks
    {jump : Stand fs.root → HostPath → List String → Bool → Except FileError Spot}
    (hjump : ∀ here target rest slash, jump here target rest slash = .ok spot
      ↔ ∃ fewer, links = fewer + 1 ∧ fs.Walks follow fewer
          (slash || (rest.isEmpty && target.endsWithSlash))
          (if target.isRooted then [] else here.place) (target.steps ++ rest) spot)
    (here : Stand fs.root) (names : List String) :
    fs.walkWith jump follow slash here names = .ok spot
      ↔ fs.Walks follow links slash here.place names spot := by
  induction names generalizing here with
  | nil => rw [walkWith, Except.ok.injEq, walks_nil_iff, eq_comm]
  | cons name rest ih =>
      rw [walkWith]
      by_cases hdot : name = "."
      · rw [if_pos hdot, ih, hdot, walks_dot_iff]
      rw [if_neg hdot]
      by_cases hdots : name = ".."
      · rw [if_pos hdots, ih, hdots, here.place_up, walks_dots_iff]
      rw [if_neg hdots]
      by_cases hlong : name.utf8ByteSize > nameLimit
      · rw [if_pos hlong]
        exact ⟨fun h => (by cases h),
          fun h => absurd (h.isStep hdot hdots).short (Nat.not_le.2 hlong)⟩
      have hstep : IsStep name := ⟨hdot, hdots, Nat.not_lt.1 hlong⟩
      rw [if_neg hlong]
      rcases fs.down?_cases here name with ⟨hdown, hentry⟩ | ⟨next, hdown, hplace, hentry⟩
      · rw [hdown, walks_last_iff hstep (by rw [hentry]; simp) (by rw [hentry]; simp)]
        exact last_eq_ok_iff
      · rw [hdown]
        dsimp only
        cases hnode : next.node with
        | dir es =>
            rw [hnode] at hentry
            dsimp only
            rw [ih, hplace, walks_dir_iff hstep hentry]
        | link target =>
            rw [hnode] at hentry
            dsimp only
            split
            · next hgo => rw [hjump, walks_link_iff hstep hentry hgo]
            · next hgo =>
                -- the last name is a link that is not followed, so the way ends at it
                obtain ⟨hne, hfollow⟩ := not_or.1 hgo
                have hrest : rest = [] := not_not.1 hne
                rw [Bool.not_eq_true] at hfollow
                rw [walks_last_iff hstep (by rw [hentry]; simp [Node.entry]) fun _ _ =>
                  ⟨hrest, hfollow⟩, hplace, Except.ok.injEq, and_iff_right hrest, eq_comm]
        | file b =>
            rw [hnode] at hentry
            rw [walks_last_iff hstep (by rw [hentry]; simp [Node.entry])
              (by rw [hentry]; simp [Node.entry]), ← hplace]
            exact last_eq_ok_iff

/-- **Following names finds the ways that arrive.** -/
theorem walk_eq_ok_iff_walks (here : Stand fs.root) :
    fs.walk follow links slash here names = .ok spot
      ↔ fs.Walks follow links slash here.place names spot := by
  induction links generalizing slash here names with
  | zero =>
      rw [walk]
      refine walkWith_eq_ok_iff_walks (fun here target rest slash => ?_) here names
      refine ⟨fun h => (by cases h), ?_⟩
      rintro ⟨fewer, h, -⟩
      cases h
  | succ links ih =>
      rw [walk]
      refine walkWith_eq_ok_iff_walks (fun here target rest slash => ?_) here names
      rw [ih]
      have hplace : (if target.isRooted then Stand.top fs.root else here).place
          = if target.isRooted then [] else here.place := by
        split <;> rfl
      rw [hplace]
      constructor
      · exact fun h => ⟨links, rfl, h⟩
      · rintro ⟨fewer, heq, h⟩
        cases heq
        exact h

/-- Whether an operation follows a link at the end of a path. -/
def follows : Follow → HostPath → Bool
  | .always, _ => true
  | .withSlash, p => p.endsWithSlash
  | .never, _ => false

/-- **Where a path leads.** -/
theorem resolve_eq_ok_iff_walks {mode : Follow} :
    fs.resolve mode p = .ok spot
      ↔ Usable p ∧ fs.entryAt? (fs.origin p) = some .dir
        ∧ fs.Walks (follows mode p) linkLimit p.endsWithSlash (fs.origin p) p.steps spot := by
  unfold resolve
  by_cases hnul : '\x00' ∈ p.text.toList
  · rw [if_pos (by simpa using hnul)]
    exact ⟨fun h => (by cases h), fun h => absurd hnul h.1.no_nul⟩
  rw [if_neg (by simpa using hnul)]
  by_cases hempty : p.text = ""
  · rw [if_pos (by simp [hempty])]
    exact ⟨fun h => (by cases h), fun h => absurd hempty h.1.ne_empty⟩
  rw [if_neg (by simpa using hempty)]
  by_cases hlong : p.text.utf8ByteSize ≥ pathLimit
  · rw [if_pos hlong]
    exact ⟨fun h => (by cases h), fun h => absurd h.1.short (Nat.not_lt.2 hlong)⟩
  rw [if_neg hlong, and_iff_right ⟨hnul, hempty, Nat.not_le.1 hlong⟩]
  cases hstart : fs.start? p with
  | none =>
      refine ⟨fun h => (by cases h), fun h => ?_⟩
      have hsome := start?_isSome h.1
      rw [hstart] at hsome
      cases hsome
  | some here =>
      obtain ⟨hplace, hdir⟩ := start?_eq_some hstart
      dsimp only
      rw [and_iff_right hdir, ← hplace, ← walk_eq_ok_iff_walks]
      cases mode <;> exact Iff.rfl

theorem find_of_resolve {mode : Follow} {node : Node} (hresolve : fs.resolve mode p = .ok spot)
    (hnode : fs.node? spot.place = some node) :
    fs.find mode p
      = if spot.slash && !node.isDir then .error .notDirectory else .ok (spot.place, node) := by
  rw [find, hresolve]
  dsimp only
  rw [hnode]
  cases node <;> cases spot.slash <;> rfl

/-- **What a path names**: what stands where it leads, which is a directory if the end was written
with a slash. -/
theorem find_eq_ok_iff_resolve {mode : Follow} {node : Node} :
    fs.find mode p = .ok (place, node)
      ↔ ∃ spot, fs.resolve mode p = .ok spot ∧ spot.place = place
        ∧ fs.node? place = some node ∧ (spot.slash = true → node.isDir = true) := by
  constructor
  · intro h
    cases hresolve : fs.resolve mode p with
    | error e =>
        rw [find, hresolve] at h
        cases h
    | ok spot =>
        cases hnode : fs.node? spot.place with
        | none =>
            rw [find, hresolve] at h
            dsimp only at h
            rw [hnode] at h
            cases h
        | some n =>
            rw [find_of_resolve hresolve hnode] at h
            split at h
            · cases h
            · next hslash =>
                cases h
                refine ⟨spot, rfl, rfl, hnode, fun hs => ?_⟩
                simpa [hs] using hslash
  · rintro ⟨spot, hresolve, rfl, hnode, hslash⟩
    rw [find_of_resolve hresolve hnode, if_neg]
    intro hboth
    obtain ⟨hs, hnot⟩ := Bool.and_eq_true_iff.1 hboth
    rw [hslash hs] at hnot
    cases hnot

/-! ## Along a way -/

/-- A way whose last name is a link ends there if that is not followed. -/
theorem Walks.unfollowed (h : fs.Walks true links slash place names spot)
    (hends : fs.entryAt? spot.place ≠ none) :
    ∃ other, fs.Walks false links slash place names other
      ∧ fs.entryAt? other.place ≠ none ∧ other.slash = slash := by
  induction h with
  | here => exact ⟨_, .here, hends, rfl⟩
  | dot hname _ ih =>
      obtain ⟨other, hway, hother⟩ := ih hends
      exact ⟨other, .dot hname hway, hother⟩
  | dots hname _ ih =>
      obtain ⟨other, hway, hother⟩ := ih hends
      exact ⟨other, .dots hname hway, hother⟩
  | dir hstep hdir _ ih =>
      obtain ⟨other, hway, hother⟩ := ih hends
      exact ⟨other, .dir hstep hdir hway, hother⟩
  | @link links slash place name target rest spot hstep hlink _ _ ih =>
      by_cases hrest : rest = []
      · rw [hrest]
        refine ⟨_, .last hstep (by rw [hlink]; simp) (fun h => by cases h), ?_, rfl⟩
        rw [hlink]
        simp
      · obtain ⟨other, hway, hother, hslash⟩ := ih hends
        refine ⟨other, .link hstep hlink (Or.inl hrest) hway, hother, ?_⟩
        rw [hslash, List.isEmpty_eq_false_iff.2 hrest, Bool.false_and, Bool.or_false]
  | last hstep hnot _ => exact ⟨_, .last hstep hnot (fun h => by cases h), hends, rfl⟩

theorem Walks.concat (h : fs.Walks true links slash place names spot)
    (hdir : fs.entryAt? spot.place = some .dir) (hstep : IsStep name) (after : Bool) :
    fs.Walks false links after place (names ++ [name]) ⟨spot.place ++ [name], after⟩ := by
  induction h with
  | @here links slash place =>
      by_cases hentry : fs.entryAt? (place ++ [name]) = some .dir
      · exact .dir hstep hentry .here
      · exact .last hstep hentry (fun h => by cases h)
  | dot hname _ ih => exact .dot hname (ih hdir)
  | dots hname _ ih => exact .dots hname (ih hdir)
  | dir hstep' hentry _ ih => exact .dir hstep' hentry (ih hdir)
  | @link links slash place name' target rest spot hstep' hlink _ _ ih =>
      have hne : rest ++ [name] ≠ [] := List.append_ne_nil_of_right_ne_nil _ (List.cons_ne_nil _ _)
      rw [List.cons_append]
      refine .link hstep' hlink (Or.inl hne) ?_
      rw [List.isEmpty_eq_false_iff.2 hne, Bool.false_and, Bool.or_false, ← List.append_assoc]
      exact ih hdir
  | last _ hnot _ => exact absurd hdir hnot

theorem getLast?_cons_cases {first : String} (h : (first :: rest).getLast? = some name) :
    (rest = [] ∧ first = name) ∨ rest.getLast? = some name := by
  rw [List.getLast?_cons, Option.some_inj] at h
  cases hrest : rest.getLast? with
  | none =>
      rw [hrest] at h
      exact Or.inl ⟨List.getLast?_eq_none_iff.1 hrest, h⟩
  | some last =>
      rw [hrest] at h
      exact Or.inr (congrArg some h)

/-- A way whose last name is not followed and goes down ends below the root. -/
theorem Walks.place_ne_nil (h : fs.Walks false links slash place names spot)
    (hlast : names.getLast? = some name) (hdot : name ≠ ".") (hdots : name ≠ "..") :
    spot.place ≠ [] := by
  induction h with
  | here => cases hlast
  | dot hname _ ih =>
      rcases getLast?_cons_cases hlast with ⟨-, heq⟩ | hrest
      · exact absurd (heq.symm.trans hname) hdot
      · exact ih hrest
  | dots hname _ ih =>
      rcases getLast?_cons_cases hlast with ⟨-, heq⟩ | hrest
      · exact absurd (heq.symm.trans hname) hdots
      · exact ih hrest
  | dir _ _ hway ih =>
      rcases getLast?_cons_cases hlast with ⟨rfl, -⟩ | hrest
      · rw [walks_nil_iff.1 hway]
        exact List.append_ne_nil_of_right_ne_nil _ (List.cons_ne_nil _ _)
      · exact ih hrest
  | link _ _ hgo _ ih =>
      have hrest := (getLast?_cons_cases hlast).resolve_left fun h =>
        hgo.elim (fun hne => hne h.1) fun h => by cases h
      refine ih ?_
      rw [List.getLast?_append, hrest, Option.some_or]
  | last => exact List.append_ne_nil_of_right_ne_nil _ (List.cons_ne_nil _ _)

end FileSystem

end PackageScript
