import PackageScript.Proofs.Files.Growth

set_option autoImplicit false

/-! # What following a path looks at

Following a path depends on few places of a tree: where it starts, the directories that it goes by,
and what stands under each name when its turn comes (`FileSystem.Looks`). Two trees in which the
same stands at these places give the same answer for the path, a failure with its cause included
(`resolve_of_looks`).

Around a path the same holds of everything that is asked on the way to it. The places that some
beginning of the path looks at are its way (`FileSystem.Passes`), and trees that are the same there
(`FileSystem.SameAlong`) stay so when directories are made around the path
(`FileAction.ensureParent_same`). In general a tree shows only a part of the way as long as a
directory is missing, so the way is that of the tree in which all of them have been made.
-/

namespace PackageScript

namespace FileSystem

variable {fs fs' : FileSystem} {p path : HostPath} {place q : Place} {mode : Follow}
variable {follow slash : Bool} {links : Nat} {names : List String} {spot : Spot}

/-! ## Looking at places -/

/-- **The places that names lead by from a place**, with at most so many links followed, and the
places that are looked at under the names. A link at the end is followed as well. -/
inductive Looks (fs : FileSystem) : Nat → Place → List String → Place → Prop
  | here {links : Nat} {place : Place} {names : List String} : Looks fs links place names place
  | next {links : Nat} {place : Place} {name : String} {rest : List String} : IsStep name →
      Looks fs links place (name :: rest) (place ++ [name])
  | dot {links : Nat} {place q : Place} {name : String} {rest : List String} : name = "." →
      Looks fs links place rest q → Looks fs links place (name :: rest) q
  | dots {links : Nat} {place q : Place} {name : String} {rest : List String} : name = ".." →
      Looks fs links place.dropLast rest q → Looks fs links place (name :: rest) q
  | dir {links : Nat} {place q : Place} {name : String} {rest : List String} : IsStep name →
      fs.entryAt? (place ++ [name]) = some .dir → Looks fs links (place ++ [name]) rest q →
      Looks fs links place (name :: rest) q
  | link {links : Nat} {place q : Place} {name target : String} {rest : List String} :
      IsStep name → fs.entryAt? (place ++ [name]) = some (.link target) →
      Looks fs links (if HostPath.isRooted ⟨target⟩ then [] else place)
        (HostPath.steps ⟨target⟩ ++ rest) q →
      Looks fs (links + 1) place (name :: rest) q

theorem Looks.mono (hdirs : ∀ q, fs.entryAt? q = some .dir → fs'.entryAt? q = some .dir)
    (hlinks : ∀ q target, fs.entryAt? q = some (.link target) →
      fs'.entryAt? q = some (.link target))
    (h : fs.Looks links place names q) : fs'.Looks links place names q := by
  induction h with
  | here => exact .here
  | next hstep => exact .next hstep
  | dot hname _ ih => exact .dot hname ih
  | dots hname _ ih => exact .dots hname ih
  | dir hstep hdir _ ih => exact .dir hstep (hdirs _ hdir) ih
  | link hstep hlink _ ih => exact .link hstep (hlinks _ _ hlink) ih

/-- Where there are the same directories and links, the same ways arrive. -/
theorem Walks.of_same_kinds
    (hdirs : ∀ q, fs'.entryAt? q = some .dir ↔ fs.entryAt? q = some .dir)
    (hlinks : ∀ q target, fs'.entryAt? q = some (.link target)
      ↔ fs.entryAt? q = some (.link target))
    (h : fs.Walks follow links slash place names spot) :
    fs'.Walks follow links slash place names spot := by
  induction h with
  | here => exact .here
  | dot hname _ ih => exact .dot hname ih
  | dots hname _ ih => exact .dots hname ih
  | dir hstep hdir _ ih => exact .dir hstep ((hdirs _).2 hdir) ih
  | link hstep hlink hgo _ ih => exact .link hstep ((hlinks _ _).2 hlink) hgo ih
  | last hstep hnot hnolink =>
      exact .last hstep (mt (hdirs _).1 hnot) fun hfollow target =>
        mt (hlinks _ _).1 (hnolink hfollow target)

theorem Walks.looks (h : fs.Walks follow links slash place names spot) :
    fs.Looks links place names spot.place := by
  induction h with
  | here => exact .here
  | dot hname _ ih => exact .dot hname ih
  | dots hname _ ih => exact .dots hname ih
  | dir hstep hdir _ ih => exact .dir hstep hdir ih
  | link hstep hlink _ _ ih => exact .link hstep hlink ih
  | last hstep _ _ => exact .next hstep

/-- **Names lead the same way in trees with the same at the places that are looked at**, if the same
is done at each link. -/
theorem walkWith_of_looks
    {jump : Stand fs.root → HostPath → List String → Bool → Except FileError Spot}
    {jump' : Stand fs'.root → HostPath → List String → Bool → Except FileError Spot}
    (hjump : ∀ (here : Stand fs.root) (here' : Stand fs'.root) (name target : String)
      (rest : List String) (slash : Bool), here'.place = here.place → IsStep name →
      fs.entryAt? (here.place ++ [name]) = some (.link target) →
      (∀ q, fs.Looks links here.place (name :: rest) q → fs'.entryAt? q = fs.entryAt? q) →
      jump' here' ⟨target⟩ rest slash = jump here ⟨target⟩ rest slash)
    (here : Stand fs.root) (here' : Stand fs'.root) (hplace : here'.place = here.place)
    (hsame : ∀ q, fs.Looks links here.place names q → fs'.entryAt? q = fs.entryAt? q) :
    fs'.walkWith jump' follow slash here' names = fs.walkWith jump follow slash here names := by
  induction names generalizing here here' with
  | nil => rw [walkWith, walkWith, hplace]
  | cons name rest ih =>
      rw [walkWith, walkWith]
      by_cases hdot : name = "."
      · rw [if_pos hdot, if_pos hdot]
        exact ih here here' hplace fun q hq => hsame q (.dot hdot hq)
      rw [if_neg hdot, if_neg hdot]
      by_cases hdots : name = ".."
      · rw [if_pos hdots, if_pos hdots]
        have hup : here'.up.place = here.up.place := by rw [here'.place_up, here.place_up, hplace]
        exact ih here.up here'.up hup fun q hq => hsame q (.dots hdots (here.place_up ▸ hq))
      rw [if_neg hdots, if_neg hdots]
      by_cases hlong : name.utf8ByteSize > nameLimit
      · rw [if_pos hlong, if_pos hlong]
      have hstep : IsStep name := ⟨hdot, hdots, Nat.not_lt.1 hlong⟩
      rw [if_neg hlong, if_neg hlong]
      -- the entry under the name is looked at, so it is there in both trees or in none
      have hnext := hsame _ (.next hstep)
      rcases fs.down?_cases here name with ⟨hdown, hentry⟩ | ⟨next, hdown, hat, hentry⟩
      · rcases fs'.down?_cases here' name with ⟨hdown', -⟩ | ⟨next', -, -, hentry'⟩
        · rw [hdown, hdown', hplace]
        · rw [hplace, hnext, hentry] at hentry'
          cases hentry'
      · rcases fs'.down?_cases here' name with ⟨-, hentry'⟩ | ⟨next', hdown', hat', hentry'⟩
        · rw [hplace, hnext, hentry] at hentry'
          cases hentry'
        · rw [hplace] at hat' hentry'
          rw [hnext, hentry] at hentry'
          rw [hdown, hdown']
          dsimp only
          cases hnode : next.node with
          | dir es =>
              rw [hnode] at hentry hentry'
              cases hnode' : next'.node with
              | dir es' =>
                  exact ih next next' (hat'.trans hat.symm) fun q hq =>
                    hsame q (.dir hstep hentry (hat ▸ hq))
              | link target => rw [hnode'] at hentry'; cases hentry'
              | file b => rw [hnode'] at hentry'; cases hentry'
          | link target =>
              rw [hnode] at hentry hentry'
              cases hnode' : next'.node with
              | dir es => rw [hnode'] at hentry'; cases hentry'
              | link target' =>
                  rw [hnode'] at hentry'
                  cases hentry'
                  dsimp only
                  rw [hjump here here' name target rest slash hplace hstep hentry hsame, hat, hat']
              | file b => rw [hnode'] at hentry'; cases hentry'
          | file b =>
              rw [hnode] at hentry'
              cases hnode' : next'.node with
              | dir es => rw [hnode'] at hentry'; cases hentry'
              | link target => rw [hnode'] at hentry'; cases hentry'
              | file b' => rw [hat, hat']

/-- Following names with links, in trees with the same at the places that are looked at. -/
theorem walk_of_looks (here : Stand fs.root) (here' : Stand fs'.root)
    (hplace : here'.place = here.place)
    (hsame : ∀ q, fs.Looks links here.place names q → fs'.entryAt? q = fs.entryAt? q) :
    fs'.walk follow links slash here' names = fs.walk follow links slash here names := by
  induction links generalizing slash here here' names with
  | zero =>
      rw [walk, walk]
      exact walkWith_of_looks (fun _ _ _ _ _ _ _ _ _ _ => rfl) here here' hplace hsame
  | succ links ih =>
      rw [walk, walk]
      refine walkWith_of_looks
        (fun here here' name target rest slash hplace hstep hlink hsame => ?_)
        here here' hplace hsame
      have hfrom : (if HostPath.isRooted ⟨target⟩ then Stand.top fs.root else here).place
          = if HostPath.isRooted ⟨target⟩ then [] else here.place := by
        split <;> rfl
      refine ih _ _ ?_ fun q hq => hsame q (.link hstep hlink (hfrom ▸ hq))
      split
      · rfl
      · exact hplace

/-- The places that following a path looks at. -/
def LooksAt (fs : FileSystem) (p : HostPath) (q : Place) : Prop :=
  fs.Looks linkLimit (fs.origin p) p.steps q

/-- **Where a path leads depends on what it looks at.** -/
theorem resolve_of_looks (horigin : fs'.origin p = fs.origin p)
    (hsame : ∀ q, fs.LooksAt p q → fs'.entryAt? q = fs.entryAt? q) (mode : Follow) :
    fs'.resolve mode p = fs.resolve mode p := by
  have hstart := hsame _ (.here : fs.LooksAt p (fs.origin p))
  unfold resolve
  cases hhere : fs.start? p with
  | some here =>
      obtain ⟨hplace, hdir⟩ := start?_eq_some hhere
      rw [hdir, ← horigin] at hstart
      obtain ⟨here', hhere'⟩ := Option.isSome_iff_exists.1 (start?_isSome hstart)
      obtain ⟨hplace', -⟩ := start?_eq_some hhere'
      rw [hhere']
      dsimp only
      rw [walk_of_looks here here' (by rw [hplace', hplace, horigin]) (by rw [hplace]; exact hsame)]
  | none =>
      cases hhere' : fs'.start? p with
      | some here' =>
          obtain ⟨-, hdir⟩ := start?_eq_some hhere'
          rw [horigin, hstart] at hdir
          have hsome := start?_isSome hdir
          rw [hhere] at hsome
          cases hsome
      | none => rfl

theorem looksAt_of_resolve (h : fs.resolve mode p = .ok spot) : fs.LooksAt p spot.place :=
  (resolve_eq_ok_iff_walks.1 h).2.2.looks

/-! ## The way of a path -/

/-- **A path spells a beginning of another one.** -/
structure Begins (p path : HostPath) : Prop where
  ne_nil : p.parts ≠ []
  front : p.parts <+: path.parts

theorem Begins.origin (h : Begins p path) (fs : FileSystem) : fs.origin p = fs.origin path := by
  rw [← fs.origin_ofParts h.front h.ne_nil, fs.origin_ofParts List.prefix_rfl h.ne_nil]

theorem begins_ofParts {ps : List String} (hne : ps ≠ []) (hfront : ps <+: path.parts) :
    Begins (.ofParts ps) path := by
  refine ⟨?_, ?_⟩ <;> rw [HostPath.parts_ofParts hfront]
  · exact hne
  · exact hfront

/-- **The way of a path**: the places that its beginnings, and the path itself, look at. -/
def Passes (fs : FileSystem) (path : HostPath) (q : Place) : Prop :=
  ∃ p, Begins p path ∧ fs.LooksAt p q

theorem Passes.mono (hhome : fs'.home = fs.home)
    (hdirs : ∀ q, fs.entryAt? q = some .dir → fs'.entryAt? q = some .dir)
    (hlinks : ∀ q target, fs.entryAt? q = some (.link target) →
      fs'.entryAt? q = some (.link target)) (h : fs.Passes path q) : fs'.Passes path q := by
  obtain ⟨p, hp, hlooks⟩ := h
  refine ⟨p, hp, ?_⟩
  rw [LooksAt, origin_congr hhome]
  exact hlooks.mono hdirs hlinks

theorem Fills.passes (h : Fills fs fs') (hq : fs.Passes path q) : fs'.Passes path q :=
  hq.mono h.home (fun _ => h.eq_some) fun _ _ => h.eq_some

/-- **Two trees are the same along the way of a path.** The way is that of a tree of its own, in
which the directories around the path have been made. -/
structure SameAlong (top : FileSystem) (path : HostPath) (fs fs' : FileSystem) : Prop where
  origin : fs'.origin path = fs.origin path
  entry : ∀ q, top.Passes path q → fs'.entryAt? q = fs.entryAt? q

namespace SameAlong

variable {top fs1 fs1' fs'' : FileSystem}

theorem refl (top : FileSystem) (path : HostPath) (fs : FileSystem) : SameAlong top path fs fs :=
  ⟨rfl, fun _ _ => rfl⟩

theorem trans (h : SameAlong top path fs fs') (h' : SameAlong top path fs' fs'') :
    SameAlong top path fs fs'' :=
  ⟨h'.origin.trans h.origin, fun q hq => (h'.entry q hq).trans (h.entry q hq)⟩

theorem put {e : Entry} (h : SameAlong top path fs fs') (hhome : fs1.home = fs.home)
    (hentry : ∀ q, fs1.entryAt? q = if q = place then some e else fs.entryAt? q)
    (hhome' : fs1'.home = fs'.home)
    (hentry' : ∀ q, fs1'.entryAt? q = if q = place then some e else fs'.entryAt? q) :
    SameAlong top path fs1 fs1' := by
  refine ⟨?_, fun q hq => ?_⟩
  · rw [origin_congr hhome', origin_congr hhome, h.origin]
  · rw [hentry', hentry, h.entry q hq]

variable (h : SameAlong top path fs fs') (hsees : ∀ q, fs.Passes path q → top.Passes path q)
  (hp : Begins p path)
include h hsees hp

theorem resolve (mode : Follow) : fs'.resolve mode p = fs.resolve mode p := by
  refine resolve_of_looks ?_ (fun q hq => h.entry q (hsees q ⟨p, hp, hq⟩)) mode
  rw [hp.origin, hp.origin, h.origin]

theorem entry_of_resolve (hresolve : fs.resolve mode p = .ok spot) :
    fs'.entryAt? spot.place = fs.entryAt? spot.place :=
  h.entry _ (hsees _ ⟨p, hp, looksAt_of_resolve hresolve⟩)

end SameAlong

theorem isDir_iff_resolve :
    fs.isDir p = true ↔ ∃ spot, fs.resolve .always p = .ok spot
      ∧ fs.entryAt? spot.place = some .dir := by
  rw [isDir_iff_stat]
  constructor
  · rintro ⟨place, es, hstat⟩
    obtain ⟨spot, hresolve, rfl, hnode, -⟩ := find_eq_ok_iff_resolve.1 hstat
    exact ⟨spot, hresolve, entryAt?_eq_dir_iff.2 ⟨es, hnode⟩⟩
  · rintro ⟨spot, hresolve, hdir⟩
    obtain ⟨es, hes⟩ := entryAt?_eq_dir_iff.1 hdir
    exact ⟨spot.place, es, find_eq_ok_iff_resolve.2 ⟨spot, hresolve, rfl, hes, fun _ => rfl⟩⟩

end FileSystem

/-! ## Making directories around a path -/

namespace FileAction

open FileSystem (Begins SameAlong Fills)

variable {fs fs' t top : FileSystem} {p path : HostPath}

section Same

variable (hsame : SameAlong top path fs fs') (hsees : ∀ q, fs.Passes path q → top.Passes path q)
  (hp : Begins p path)
include hsame hsees hp

theorem isDir_same : fs'.isDir p = fs.isDir p := by
  rw [Bool.eq_iff_iff, FileSystem.isDir_iff_resolve, FileSystem.isDir_iff_resolve,
    hsame.resolve hsees hp]
  refine exists_congr fun spot => and_congr_right fun hresolve => ?_
  rw [hsame.entry_of_resolve hsees hp hresolve]

theorem writePlace_same {place : Place} (h : writePlace p fs = .ok place) :
    writePlace p fs' = .ok place := by
  obtain ⟨hslash, ⟨spot, hnever⟩, halways, hnot⟩ := writePlace_eq_ok_iff_resolve.1 h
  refine writePlace_eq_ok_iff_resolve.2 ⟨hslash, ⟨spot, ?_⟩, ?_, ?_⟩
  · rw [hsame.resolve hsees hp, hnever]
  · rw [hsame.resolve hsees hp, halways]
  · rw [hsame.entry_of_resolve hsees hp halways]
    exact hnot

theorem makeDir_same_of_ok (hrun : makeDir p fs = .ok () t) :
    ∃ t', makeDir p fs' = .ok () t' ∧ SameAlong top path t t' := by
  obtain ⟨spot, hresolve, hnone, rfl⟩ := (makeDir_makes p).of_ok hrun
  have hresolve' : fs'.resolve .never p = .ok spot := by rw [hsame.resolve hsees hp, hresolve]
  have hnone' : fs'.entryAt? spot.place = none := by
    rw [hsame.entry_of_resolve hsees hp hresolve, hnone]
  refine ⟨fs'.setDir spot.place, ?_, ?_⟩
  · rw [makeDir, hresolve']
    dsimp only
    rw [FileSystem.entryAt?_eq_none_iff.1 hnone']
  · exact hsame.put rfl (FileSystem.entryAt?_setDir_of_resolve hresolve hnone) rfl
      (FileSystem.entryAt?_setDir_of_resolve hresolve' hnone')

theorem makeDir_same_of_error {e : FileError} (hrun : makeDir p fs = .error e t) :
    makeDir p fs' = .error e fs' := by
  rw [makeDir] at hrun ⊢
  rw [hsame.resolve hsees hp]
  cases hresolve : fs.resolve .never p with
  | error e' =>
      rw [hresolve] at hrun
      cases hrun
      rfl
  | ok spot =>
      rw [hresolve] at hrun
      dsimp only at hrun ⊢
      cases hnode : fs.node? spot.place with
      | none =>
          rw [hnode] at hrun
          cases hrun
      | some n =>
          rw [hnode] at hrun
          cases hrun
          have hthere : fs'.entryAt? spot.place ≠ none := by
            rw [hsame.entry_of_resolve hsees hp hresolve, FileSystem.entryAt?_eq_map, hnode]
            simp
          obtain ⟨n', hn'⟩ := Option.ne_none_iff_exists'.1
            (mt FileSystem.entryAt?_eq_none_iff.2 hthere)
          rw [hn']

theorem makeOrFind_same (hrun : makeOrFind p fs = .ok () t) :
    ∃ t', makeOrFind p fs' = .ok () t' ∧ SameAlong top path t t' := by
  rw [makeOrFind] at hrun ⊢
  cases hmake : makeDir p fs with
  | ok _ fs1 =>
      rw [hmake] at hrun
      cases hrun
      obtain ⟨t', hmake', hsame'⟩ := makeDir_same_of_ok hsame hsees hp hmake
      exact ⟨t', by rw [hmake'], hsame'⟩
  | error e fs1 =>
      obtain rfl := (makeDir_makes p).of_error hmake
      rw [hmake] at hrun
      dsimp only at hrun
      split at hrun
      · next hdir =>
          cases hrun
          refine ⟨fs', ?_, hsame⟩
          rw [makeDir_same_of_error hsame hsees hp hmake]
          dsimp only
          rw [isDir_same hsame hsees hp, if_pos hdir]
      · cases hrun

/-- A directory is missing around the same paths. -/
theorem makeDir_notFound_iff :
    makeDir p fs' = .error .notFound fs' ↔ makeDir p fs = .error .notFound fs := by
  constructor
  · intro hrun'
    cases hrun : makeDir p fs with
    | ok _ t =>
        obtain ⟨t', hmade, -⟩ := makeDir_same_of_ok hsame hsees hp hrun
        rw [hrun'] at hmade
        cases hmade
    | error e t =>
        rw [makeDir_same_of_error hsame hsees hp hrun] at hrun'
        cases hrun'
        obtain rfl := (makeDir_makes p).of_error hrun
        rfl
  · exact makeDir_same_of_error hsame hsees hp

end Same

/-- **A directory is made at once, or behind the one around it if that is missing.** -/
theorem makeDirs_cons_eq_ok_iff {part : String} {above : List String} :
    makeDirs p (part :: above) fs = .ok () t
      ↔ makeDir p fs = .error .notFound fs
          ∧ (∃ fs1, makeDirs (.ofParts (part :: above).reverse) above fs = .ok () fs1
            ∧ makeOrFind p fs1 = .ok () t)
        ∨ makeDir p fs ≠ .error .notFound fs ∧ makeOrFind p fs = .ok () t := by
  rw [makeDirs]
  dsimp only [makeOrFind]
  cases hmake : makeDir p fs with
  | ok _ fs1 => simp
  | error e fs1 =>
      obtain rfl := (makeDir_makes p).of_error hmake
      cases e with
      | notFound =>
          dsimp only
          generalize makeDirs (.ofParts (part :: above).reverse) above fs1 = found
          cases found with
          | ok _ fs2 =>
              constructor
              · intro hlast
                exact .inl ⟨rfl, fs2, rfl, hlast⟩
              · rintro (⟨-, fs3, habove, hlast⟩ | ⟨hfound, -⟩)
                · cases habove
                  exact hlast
                · exact absurd rfl hfound
          | error e fs2 => simp
      | _ => simp

/-- **Directories are made alike in trees that are the same along the way.** -/
theorem makeDirs_same {above : List String} {last : String} (hsame : SameAlong top path fs fs')
    (hparts : p.parts = above.reverse ++ [last]) (hfront : p.parts <+: path.parts)
    (hproper : p.parts ≠ path.parts) (hrun : makeDirs p above fs = .ok () t)
    (hsees : ∀ q, t.Passes path q → top.Passes path q) :
    ∃ t', makeDirs p above fs' = .ok () t' ∧ SameAlong top path t t' := by
  have hp : Begins p path := ⟨by rw [hparts]; simp, hfront⟩
  induction above generalizing fs fs' p last t with
  | nil =>
      have hmade := (makeOrFind_along fs hfront hproper).of_ok hrun
      exact makeOrFind_same hsame (fun q hq => hsees q (hmade.fills.passes hq)) hp hrun
  | cons part above ih =>
      have hmade := (makeDirs_along fs hparts hfront hproper).of_ok hrun
      have hseesFirst : ∀ q, fs.Passes path q → top.Passes path q := fun q hq =>
        hsees q (hmade.fills.passes hq)
      rcases makeDirs_cons_eq_ok_iff.1 hrun with ⟨hmissing, fs1, habove, hlast⟩ | ⟨hfound, hlast⟩
      · -- the directory around it is a beginning of the path, too
        have hsub : (part :: above).reverse <+: p.parts := by
          rw [hparts]
          exact List.prefix_append _ _
        have hback : (HostPath.ofParts (part :: above).reverse).parts
            = above.reverse ++ [part] := by
          rw [HostPath.parts_ofParts hsub, List.reverse_cons]
        have hbegins : Begins (.ofParts (part :: above).reverse) path :=
          FileSystem.begins_ofParts (by simp) (hsub.trans hfront)
        have hshorter : (HostPath.ofParts (part :: above).reverse).parts ≠ path.parts := by
          have hlength := hfront.length_le
          rw [hparts, List.reverse_cons, List.length_append, List.length_singleton] at hlength
          rw [hback]
          exact fun heq => absurd (congrArg List.length heq) (by omega)
        have hmadeLast := (makeOrFind_along fs1 hfront hproper).of_ok hlast
        have hseesAbove : ∀ q, fs1.Passes path q → top.Passes path q := fun q hq =>
          hsees q (hmadeLast.fills.passes hq)
        obtain ⟨fs1', habove', hsame1⟩ :=
          ih hsame hback hbegins.front hshorter habove hseesAbove hbegins
        obtain ⟨t', hlast', hsame2⟩ := makeOrFind_same hsame1 hseesAbove hp hlast
        exact ⟨t', makeDirs_cons_eq_ok_iff.2 (Or.inl
          ⟨(makeDir_notFound_iff hsame hseesFirst hp).2 hmissing, fs1', habove', hlast'⟩), hsame2⟩
      · obtain ⟨t', hlast', hsame'⟩ := makeOrFind_same hsame hseesFirst hp hlast
        exact ⟨t', makeDirs_cons_eq_ok_iff.2 (Or.inr
          ⟨mt (makeDir_notFound_iff hsame hseesFirst hp).1 hfound, hlast'⟩), hsame'⟩

/-- **The directories around a path are made alike in trees that are the same along its way.** -/
theorem ensureParent_same (hsame : SameAlong t path fs fs')
    (hrun : ensureParent path fs = .ok () t) :
    ∃ t', ensureParent path fs' = .ok () t' ∧ SameAlong t path t t' := by
  rw [ensureParent] at hrun ⊢
  cases hparent : path.parent? with
  | none =>
      rw [hparent] at hrun
      cases hrun
      exact ⟨fs', rfl, hsame⟩
  | some parent =>
      obtain ⟨ps, last, hparts, rfl⟩ := parent?_eq_some hparent
      have hsub : ps <+: path.parts := by
        rw [hparts]
        exact List.prefix_append ps [last]
      have hback := HostPath.parts_ofParts hsub
      rw [hparent] at hrun
      dsimp only at hrun ⊢
      rw [createDirAll, hback] at hrun ⊢
      cases hrev : ps.reverse with
      | nil =>
          rw [hrev] at hrun
          cases hrun
          exact ⟨fs', rfl, hsame⟩
      | cons part above =>
          rw [hrev] at hrun
          have hps : ps = above.reverse ++ [part] := by
            rw [← List.reverse_reverse ps, hrev, List.reverse_cons]
          refine makeDirs_same hsame (hback.trans hps) (by rw [hback]; exact hsub) ?_ hrun
            fun q hq => hq
          rw [hback, hparts]
          exact fun heq => absurd (congrArg List.length heq) (by simp)

end FileAction

end PackageScript
